import TreeScribe.Analysis.Visit
import TreeScribe.Render.Initializer
import TreeScribe.Render.Operator
import TreeScribe.Render.Statement

/-! Rendering of whole trees.

Each node is rendered from what can be made of its children, so that rendering is a fold over
the tree. A custom renderer for the kind of a node is asked first, in every position. -/
namespace TreeScribe

namespace Render

variable (env : Env) (node : Nat)

/-- What a custom renderer makes of a node, if there is one and it does not decline. -/
def custom? (form : Form Child) : Rendering (Option Doc) := do
  match env.settings.custom? form.kind with
  | none => return none
  | some renderer =>
    let children : List (Rendering String) := form.children.map fun c => do
      return env.plainText (← value c)
    let s ← renderer (.mk node (form.map (·.1))) children env.settings.typeName
    return s.map fun s => { kind := form.kind, ty := form.ty, atoms := Atoms.text s }

/-- The built-in rendering of a node as a value. -/
def builtIn (form : Form Child) : Rendering Doc :=
  match form with
  | .constant c => return literal env c.value c.ty
  | .parameter v =>
    return { kind := .parameter, ty := v.ty, atoms := Atoms.mention node v.writtenName }
  | .binary op left right ty method =>
    if op.isAssignment then assignment env node op left right ty
    else binary env op left right ty method
  | .unary op operand? ty method => unary env op operand? ty method
  | .conditional test ifTrue ifFalse ty =>
    if Node.isTernary ifTrue.1 ifFalse.1 ty then ternary test ifTrue ifFalse ty
    else ifStatement test ifTrue ifFalse ty false
  | .block locals expressions ty => valueBlock env node locals expressions ty
  | .lambda _ parameters body returnType ty => lambda env node parameters body returnType ty
  | .call receiver method args => call env receiver method args
  | .invoke target args ty => invoke env target args ty
  | .member receiver info => memberAccess env receiver info
  | .new creation => new env creation
  | .newArray elementType expressions bounds => newArray env elementType expressions bounds
  | .memberInit creation bindings => memberInit env creation bindings
  | .listInit creation items => listInit env creation items
  | .loop body breakTarget _ => loop env node body breakTarget
  | .jump kind target result ty => jump kind target result ty
  | .label target defaultValue => label env target defaultValue false
  | .switch subject cases defaultBody ty => switch node subject cases defaultBody ty false
  | .try tried handlers cleanup fault ty => attempt env tried handlers cleanup fault ty false
  | .default ty => return defaultValue env ty
  | .index object _ args ty => index object args ty
  | .typeTest expression tested exact => typeTest env expression tested exact
  | .comment s => return comment s
  | .extension name ty display operands => extension name ty display operands

def asValue (form : Form Child) : Rendering Doc := do
  match ← custom? env node form with
  | some d => return d
  | none => builtIn env node form

def asStatement (form : Form Child) : Rendering Doc := do
  match ← custom? env node form with
  | some d => return d
  | none =>
    match form with
    | .block locals expressions ty => nestedBlock env node locals expressions ty false
    | .conditional test ifTrue ifFalse ty => ifStatement test ifTrue ifFalse ty false
    | _ => asValue env node form

/-- Written without `return` where a value is returned. -/
def isNotReturned {α : Type} (form : Form α) : Bool :=
  match form with
  | .jump _ _ _ _ | .loop _ _ _ | .comment _ => true
  | .unary op _ ty _ => op == .throw || ty.isVoid
  | _ => form.ty.isVoid

def asReturning (form : Form Child) : Rendering Doc := do
  let returned (d : Doc) : Doc := if isNotReturned form then d else d.returned
  match ← custom? env node form with
  | some d => return returned d
  | none =>
    match form with
    | .block locals expressions ty => nestedBlock env node locals expressions ty true
    | .conditional test ifTrue ifFalse ty =>
      if Node.isTernary ifTrue.1 ifFalse.1 ty then return returned (← asValue env node form)
      else ifStatement test ifTrue ifFalse ty (!ty.isVoid)
    | .switch subject cases defaultBody ty => switch node subject cases defaultBody ty (!ty.isVoid)
    | .try tried handlers cleanup fault ty =>
      attempt env tried handlers cleanup fault ty (!ty.isVoid)
    | .label target defaultValue => label env target defaultValue true
    | _ => return returned (← asValue env node form)

/-- The statements of a body. A block gives its own, unless blocks have a custom renderer. -/
def asBody (form : Form Child) (returns : Bool) : Rendering Doc := do
  let single : Rendering Doc := do
    let d ← if returns then asReturning env node form else asStatement env node form
    return (d.noted node).terminated
  match form with
  | .block _ expressions ty =>
    if (env.settings.custom? .block).isNone then do
      let d ← blockStatements env node expressions ty (BlockRole.ofBody returns)
      return d.noted node
    else single
  | _ => single

def asChained (form : Form Child) (returns : Bool) : Rendering Doc :=
  match form with
  | .conditional test ifTrue ifFalse ty => ifStatement test ifTrue ifFalse ty returns
  | _ => asStatement env node form

def asLanding (form : Form Child) (returns : Bool) : Rendering Doc :=
  match form with
  | .label target defaultValue => label env target defaultValue returns
  | _ => asReturning env node form

def asElements (form : Form Child) : Rendering (List Doc) :=
  match form with
  | .newArray _ expressions _ => values expressions
  | _ => return []

/-- A block that became a method is only called where it stands as a value. -/
def isCalled {α : Type} (form : Form α) : Bool :=
  match form with
  | .block _ _ _ => (env.calls.lookup node).isSome
  | _ => false

/-- The document of a node, noted as its text unless it is the call of a method. -/
def notedValue {α : Type} (form : Form α) (d : Doc) : Doc :=
  if isCalled env node form then d else d.noted node

/-- All that can be made of a node, given the same of its children. Whatever is made of the node
itself is noted as its text. -/
def renderer (form : Form Child) : Renderer where
  inPosition
    | .value => notedValue env node form <$> asValue env node form
    | .statement => Doc.noted node <$> asStatement env node form
    | .returning => Doc.noted node <$> asReturning env node form
  body := asBody env node form
  chained returns := Doc.noted node <$> asChained env node form returns
  landing returns := Doc.noted node <$> asLanding env node form returns
  elements := asElements form

end Render

namespace Env

/-- All that can be made of a tree. -/
def renderer (env : Env) (e : Expr) : Renderer := e.para (Render.renderer env)

/-- The tree as a value. -/
def value (env : Env) (e : Expr) : Rendering Doc := (env.renderer e).inPosition .value

/-- The tree as an operand of an operator that binds at `level`. -/
def operand (env : Env) (e : Expr) (level : Level) : Rendering Doc :=
  Render.operand (e, env.renderer e) level

def body (env : Env) (e : Expr) (returns : Bool) : Rendering Doc :=
  (env.renderer e).body returns

/-- The tree on its own: statements if it can only be written so. -/
def root (env : Env) (e : Expr) : Rendering Doc :=
  if e.rendersAsStatements then env.body e false else env.value e

/-- What rendering an expression on its own refers to. -/
def ofExpr (settings : Settings) (e : Expr) : Env :=
  { settings, analysis := Analysis.ofExpression settings e }

end Env

/-- The document of an expression on its own. -/
def Doc.ofExpr (settings : Settings) (e : Expr) : Doc :=
  (((Env.ofExpr settings e).root e).run []).1

/-- A finished text. -/
structure Rendered where
  text : String
  /-- The text without markup. -/
  raw : String
  namespaces : List String
  lines : Nat
deriving DecidableEq, Repr

namespace Rendered

/-- Lays out a document. -/
def ofDoc (settings : Settings) (namespaces : List String) (d : Doc) : Rendered :=
  let b := d.written settings.format settings.indent
  { text := b.text, raw := b.raw, namespaces, lines := if b.isEmpty then 0 else b.lineCount }

/-- The text of an expression on its own. -/
def ofExpr (settings : Settings) (e : Expr) : Rendered :=
  ofDoc settings (Analysis.ofExpression settings e).requiredNamespaces (Doc.ofExpr settings e)

/-- The same, unless the process stops at the name of a type. -/
def ofExpr? (settings : Settings) (e : Expr) : Option Rendered :=
  if (Doc.ofExpr settings e).atoms.overflows settings.typeNames then none else some (ofExpr settings e)

end Rendered
end TreeScribe
