import TreeScribe.Proofs.Render.Ending

/-! The pieces of a node, in the order of the text.

The marks of a document are the places where it mentions and declares variables, the lines of labels,
the ends of nodes, and where loops, switches and lambdas open and close. `Arrangement` says, form by
form, which children a node writes and in which order, and `Env.marksOf` makes these pieces. Almost
everywhere they are made in the order in which they are written. In two places they are not: the
branch of a conditional is made before its test, and the body of a handler before its filter. -/
namespace TreeScribe

/-- The note stands for itself, and not for a name that is written in many places. -/
def Note.isMark : Note → Bool
  | .typeName _ => false
  | .label _ | .written _ | .opens _ | .closes _ => true

/-- Variables are mentioned or declared here, or something is noted. -/
def Atom.isMark : Atom → Bool
  | .mention _ _ | .declaration _ => true
  | .note n => n.isMark
  | _ => false

def Atoms.marks (as : Atoms) : List Atom := as.filter Atom.isMark

def Doc.marks (d : Doc) : List Atom := d.atoms.marks

/-- A piece of what a node writes. -/
inductive Piece where
  /-- A child, asked for in some way. -/
  | child (mode : Mode) (e : Expr)
  /-- What declares the variable of an output argument, if this argument does. -/
  | output (e : Expr)
  /-- What declares the variable of an assignment, if this assignment does. -/
  | assignment (node : Nat) (left : Expr)
  | mention (node : Nat) (name : String)
  | note (n : Note)

/-- One piece, or two that are made in the order opposite to the text. -/
inductive Step where
  | one (p : Piece)
  | swapped (first second : Piece)

/-- What is made of pieces, in the order of the text. -/
def Step.collect {m : Type → Type} [Monad m] {α : Type} (make : Piece → m (List α)) :
    List Step → m (List α)
  | [] => return []
  | .one p :: steps => do
    let made ← make p
    return made ++ (← collect make steps)
  | .swapped p q :: steps => do
    let second ← make q
    let first ← make p
    return first ++ second ++ (← collect make steps)

/-! ### The pieces of each form -/

namespace Arrangement

variable (env : Env) (node : Nat)

def value (e : Expr) : Step := .one (.child (.inPosition .value) e)

def body (returns : Bool) (e : Expr) : Step := .one (.child (.body returns) e)

def values (es : List Expr) : List Step := es.map value

def note (n : Note) : Step := .one (.note n)

/-- What a node holds as a loop, a switch or a lambda. -/
def enclosed (steps : List Step) : List Step :=
  note (.opens node) :: steps ++ [note (.closes node)]

/-- The label that leads out of a loop or stands for itself, if something jumps there. -/
def landing (target : Option Target) : List Step :=
  (target.filter env.analysis.isJumpTarget).toList.map fun t => note (.label t)

/-- A checked or power assignment writes its target twice. -/
def assignment (op : BinaryOp) (left right : Expr) : List Step :=
  let isRepeated := op == .powerAssign || op.checkedOperator?.isSome
  .one (.assignment node left) :: values (if isRepeated then [left, left, right] else [left, right])

def argument (e : Expr) (mode : PassingMode) : List Step :=
  match mode with
  | .out => [.one (.output e), value e]
  | _ => [value e]

def arguments : List Expr → List ParameterInfo → List Step
  | [], _ => []
  | e :: es, [] => argument e .value ++ arguments es []
  | e :: es, p :: ps =>
    if p.isParams && es.isEmpty && Render.isElementArray e then [.one (.child .elements e)]
    else argument e p.mode ++ arguments es ps

/-- The arguments of a call, some of which accessors leave out. -/
def access (m : MethodInfo) (args : List Expr) (parameters : List ParameterInfo) : List Step :=
  match m.property? with
  | none => arguments args parameters
  | some property =>
    if m.isGetter && args.isEmpty then []
    else if m.isGetter && property == "Item" then values args
    else
      match m.isSetter, args.getLast? with
      | true, some last => (if property == "Item" then values args.dropLast else []) ++ [value last]
      | _, _ => arguments args parameters

def call (receiver : Option Expr) (m : MethodInfo) (args : List Expr) : List Step :=
  if env.settings.writesConcat m then values args
  else
    let parameters := if m.isExtension && receiver.isNone then m.parameters.drop 1 else m.parameters
    match receiver, m.isExtension, args with
    | some e, _, args => value e :: access m args parameters
    | none, true, e :: args => value e :: access m args parameters
    | none, _, args => access m args parameters

def statements (last : Position) (afterJump : Bool) : List Expr → List Step
  | [] => []
  | e :: es =>
    if e.isEmpty then statements last afterJump es
    else
      let mode := if es.isEmpty then DocEnding.lastMode last afterJump e else .inPosition .statement
      let ending := env.ending e mode
      .one (.child mode e) ::
        statements last (if ending.isEmpty then afterJump else ending.endsWithJump) es

def block (expressions : List Expr) (ty : TypeRef) (role : BlockRole) : List Step :=
  statements env (role.lastPosition ty) false expressions

def valueBlock (locals : List Variable) (expressions : List Expr) (ty : TypeRef) : List Step :=
  match locals, expressions with
  | [], [only] => [value only]
  | _, _ => if (env.calls.lookup node).isSome then [] else block env expressions ty .value

/-- The branch is made before the test. -/
def ifStatement (test ifTrue ifFalse : Expr) (returns : Bool) : List Step :=
  let other :=
    if ifFalse.isEmpty then []
    else if Render.isChained ifFalse returns then [Step.one (.child (.chained returns) ifFalse)]
    else [body returns ifFalse]
  .swapped (.child (.inPosition .value) test) (.child (.body returns) ifTrue) :: other

def switch (subject : Expr) (cases : List (SwitchCase Expr)) (defaultBody : Option Expr)
    (returns : Bool) : List Step :=
  value subject :: enclosed node
    (cases.flatMap (fun c => values c.tests ++ [body returns c.body]) ++
      defaultBody.toList.map (body returns))

/-- The body is made before the filter. -/
def handler (returns : Bool) (h : Handler Expr) : List Step :=
  match h.filter with
  | some e => [.swapped (.child (.inPosition .value) e) (.child (.body returns) h.body)]
  | none => [body returns h.body]

def attempt (tried : Expr) (handlers : List (Handler Expr)) (cleanup fault : Option Expr)
    (returns : Bool) : List Step :=
  body returns tried :: handlers.flatMap (handler returns) ++ fault.toList.map (body false) ++
    cleanup.toList.map (body false)

def asValue (form : Form Expr) : List Step :=
  match form with
  | .constant _ | .default _ | .comment _ => []
  | .label target _ => landing env target
  | .parameter v => [.one (.mention node v.writtenName)]
  | .binary op left right _ _ =>
    if op.isAssignment then assignment node op left right else values [left, right]
  | .unary _ operand _ _ => values operand.toList
  | .conditional test ifTrue ifFalse ty =>
    if Node.isTernary ifTrue ifFalse ty then values [test, ifTrue, ifFalse]
    else ifStatement test ifTrue ifFalse false
  | .block locals expressions ty => valueBlock env node locals expressions ty
  | .lambda _ _ lambdaBody returnType _ =>
    enclosed node
      [if lambdaBody.rendersAsStatements then body (!returnType.isVoid) lambdaBody else value lambdaBody]
  | .call receiver method args => call env receiver method args
  | .invoke target args _ => values (target :: args)
  | .member receiver _ => values (receiver.toList.filter (!·.isClosure))
  | .new creation =>
    if creation.ty.isAnonymous then values ((creation.members.zip creation.arguments).map (·.2))
    else arguments creation.arguments ((creation.constructor.map (·.parameters)).getD [])
  | .newArray _ expressions _ => values expressions
  | .memberInit creation bindings => values (creation.arguments ++ Binding.childrenAll bindings)
  | .listInit creation items => values (creation.arguments ++ items.flatMap (·.arguments))
  | .loop loopBody breakTarget _ => enclosed node [body false loopBody] ++ landing env breakTarget
  | .jump kind _ result _ => if kind = .return then values result.toList else []
  | .switch subject cases defaultBody _ => switch node subject cases defaultBody false
  | .try tried handlers cleanup fault _ => attempt tried handlers cleanup fault false
  | .index object _ args _ => values (object :: args)
  | .typeTest expression _ _ => [value expression]
  | .extension _ _ display operands => if display.isSome then [] else values operands

def asStatement (form : Form Expr) : List Step :=
  match form with
  | .block _ expressions ty => block env expressions ty .discard
  | .conditional test ifTrue ifFalse _ => ifStatement test ifTrue ifFalse false
  | _ => asValue env node form

/-- At the end of a body the value of a label is returned. -/
def label (target : Target) (defaultValue : Option Expr) (returns : Bool) : List Step :=
  landing env target ++ if returns then values defaultValue.toList else []

def asReturning (form : Form Expr) : List Step :=
  match form with
  | .block _ expressions ty => block env expressions ty .return
  | .conditional test ifTrue ifFalse ty =>
    if Node.isTernary ifTrue ifFalse ty then asValue env node form
    else ifStatement test ifTrue ifFalse (!ty.isVoid)
  | .switch subject cases defaultBody ty => switch node subject cases defaultBody (!ty.isVoid)
  | .try tried handlers cleanup fault ty => attempt tried handlers cleanup fault (!ty.isVoid)
  | .label target defaultValue => label env target defaultValue true
  | _ => asValue env node form

/-- The pieces of a node, asked for in some way. -/
def ofForm (form : Form Expr) : Mode → List Step
  | .inPosition .value => asValue env node form
  | .inPosition .statement | .body false => asStatement env node form
  | .inPosition .returning | .body true => asReturning env node form
  | .chained returns =>
    match form with
    | .conditional test ifTrue ifFalse _ => ifStatement test ifTrue ifFalse returns
    | _ => asStatement env node form
  | .landing returns =>
    match form with
    | .label target defaultValue => label env target defaultValue returns
    | _ => asReturning env node form
  | .elements =>
    match form with
    | .newArray _ expressions _ => values expressions
    | _ => []

/-- The way of asking that decides whether a node has a text. Only the body of a block is more than
a statement with its semicolon. -/
def ownMode (form : Form Expr) : Mode → Mode
  | .body returns =>
    match form with
    | .block _ _ _ => .body returns
    | _ => .inPosition (Position.ofBody returns)
  | mode => mode

/-- There is a text for the node itself. -/
def isNoted (form : Form Expr) (mode : Mode) : Bool :=
  mode != .elements && !(env.ending (.mk node form) (ownMode form mode)).isEmpty &&
    !(mode == .inPosition .value && Render.isCalled env node form)

/-- The end of a node that has a text. -/
def ended (form : Form Expr) (mode : Mode) : List Step :=
  if isNoted env node form mode then [note (.written node)] else []

/-- The pieces of a node and its end. -/
def ofNode (form : Form Expr) (mode : Mode) : List Step :=
  ofForm env node form mode ++ ended env node form mode

end Arrangement

/-! ### Making the pieces -/

/-- The marks of what is made of a node. -/
def Renderer.marks (r : Renderer) : Mode → Rendering (List Atom)
  | .inPosition position => Doc.marks <$> r.inPosition position
  | .body returns => Doc.marks <$> r.body returns
  | .chained returns => Doc.marks <$> r.chained returns
  | .landing returns => Doc.marks <$> r.landing returns
  | .elements => (List.flatMap Doc.marks) <$> r.elements

namespace Env

variable (env : Env)

/-- A tree with what can be made of it. -/
abbrev child (e : Expr) : Render.Child := (e, env.renderer e)

def marksOfPiece : Piece → Rendering (List Atom)
  | .child mode e => (env.renderer e).marks mode
  | .output e => Atoms.marks <$> Render.outputAtoms env (env.child e)
  | .assignment node left => Atoms.marks <$> Render.declaringAtoms env node (env.child left)
  | .mention node name => return Atoms.mention node name
  | .note n => return Atoms.note n

/-- The marks of pieces in the order of the text. -/
def marksOf (steps : List Step) : Rendering (List Atom) := Step.collect env.marksOfPiece steps

end Env

theorem Env.marksOf_append (env : Env) (first steps : List Step) :
    env.marksOf (first ++ steps) = do
      let marks ← env.marksOf first
      return marks ++ (← env.marksOf steps) := by
  unfold marksOf
  induction first with
  | nil => simp [Step.collect]
  | cons step first ih =>
    cases step <;>
      simp only [Step.collect, List.cons_append, ih, bind_assoc, pure_bind, List.append_assoc]

@[simp] theorem Env.marksOf_one (env : Env) (p : Piece) :
    env.marksOf [.one p] = env.marksOfPiece p := by
  simp [marksOf, Step.collect]

end TreeScribe
