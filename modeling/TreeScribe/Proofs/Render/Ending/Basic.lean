import TreeScribe.Proofs.Render.Gives
import TreeScribe.Proofs.Render.Operand

/-! How documents end.

`DocEnding.ofForm` tells from a node, and from how its children end, whether a document is empty, is a
complete statement or ends with a jump. -/
namespace TreeScribe

/-- The ways in which a node is asked for. -/
inductive Mode where
  | inPosition (position : Position)
  | body (returns : Bool)
  | chained (returns : Bool)
  | landing (returns : Bool)
  | elements
deriving DecidableEq, Repr

structure DocEnding where
  isEmpty : Bool := false
  isTerminated : Bool := false
  endsWithJump : Bool := false
deriving DecidableEq, Repr

def Doc.ending (d : Doc) : DocEnding := ⟨d.isEmpty, d.isTerminated, d.endsWithJump⟩

namespace DocEnding

def terminated (e : DocEnding) : DocEnding :=
  if e.isTerminated then e else { isTerminated := true, endsWithJump := e.endsWithJump }

def braced (e : DocEnding) : DocEnding :=
  { isTerminated := true, endsWithJump := !e.isEmpty && e.endsWithJump }

/-- A complete statement that may jump. -/
def statement (endsWithJump : Bool) : DocEnding := { isTerminated := true, endsWithJump }

def jump : DocEnding := { endsWithJump := true }

/-- A document that is not written. -/
def absent : DocEnding := { isEmpty := true, isTerminated := true }

/-! ### Endings of nodes -/

/-- A child with how each document that is made of it ends. -/
abbrev Child := Expr × (Mode → DocEnding)

variable (env : Env) (node : Nat)

def value (c : Child) : DocEnding := c.2 (.inPosition .value)

/-- The way in which the last expression of a block is asked for. -/
def lastMode (last : Position) (afterJump : Bool) (e : Expr) : Mode :=
  if last == .returning && Render.isLabel e then .landing (!afterJump) else .inPosition last

/-- The statements of a block, after what has been written so far. -/
def statements (last : Position) (sofar : DocEnding) : List Child → DocEnding
  | [] => sofar
  | c :: cs =>
    if c.1.isEmpty then statements last sofar cs
    else
      let mode := if cs.isEmpty then lastMode last sofar.endsWithJump c.1 else .inPosition .statement
      let e := c.2 mode
      statements last (if e.isEmpty then sofar else .statement e.endsWithJump) cs

def block (expressions : List Child) (ty : TypeRef) (role : BlockRole) : DocEnding :=
  let declared : DocEnding :=
    { isEmpty := (env.analysis.blockDeclarations node).isEmpty, isTerminated := true }
  statements (role.lastPosition ty) declared expressions

def nestedBlock (locals : List Variable) (expressions : List Child) (ty : TypeRef)
    (returns : Bool) : DocEnding :=
  let e := block env node expressions ty (BlockRole.ofBody returns)
  if locals.isEmpty then e else e.braced

def valueBlock (locals : List Variable) (expressions : List Child) (ty : TypeRef) : DocEnding :=
  match locals, expressions with
  | [], [only] => value only
  | _, _ =>
    match env.calls.lookup node with
    | some _ => {}
    | none => (block env node expressions ty .value).braced

def ifStatement (ifTrue ifFalse : Child) (returns : Bool) : DocEnding :=
  let other :=
    if Render.isChained ifFalse.1 returns then ifFalse.2 (.chained returns)
    else ifFalse.2 (.body returns)
  .statement (!ifFalse.1.isEmpty && (ifTrue.2 (.body returns)).endsWithJump && other.endsWithJump)

def label (target : Target) (defaultValue : Option Child) (returns : Bool) : DocEnding :=
  if returns && defaultValue.isSome then .statement true
  else if env.analysis.isJumpTarget target then .statement false
  else .absent

def switch (cases : List (SwitchCase Child)) (defaultBody : Option Child) (returns : Bool) :
    DocEnding :=
  .statement (cases.all (fun c => (c.body.2 (.body returns)).endsWithJump) &&
    defaultBody.any fun c => (c.2 (.body returns)).endsWithJump)

def attempt (tried : Child) (handlers : List (Handler Child)) (returns : Bool) : DocEnding :=
  .statement ((tried.2 (.body returns)).endsWithJump &&
    handlers.all fun h => (h.body.2 (.body returns)).endsWithJump)

def unary (op : UnaryOp) (operand : Option Child) (ty : TypeRef) (method : Option MethodInfo) :
    DocEnding :=
  match operand with
  | none => .jump
  | some c =>
    if Node.callsMethod method then {}
    else
      match op with
      | .isTrue => value c
      | .convert | .convertChecked | .unbox => if c.1.ty = ty then value c else {}
      | .quote => { isEmpty := !env.settings.choice .quoteComments && (value c).isEmpty }
      | .throw => .jump
      | _ => {}

/-- A concatenation of one string is that string, and of none is nothing. -/
def concat : List Child → DocEnding
  | [] => { isEmpty := true }
  | [c] => { isEmpty := !(c.1.level < Level.additive + 1) && (value c).isEmpty }
  | _ => {}

def member (receiver : Option Child) (info : MemberInfo) : DocEnding :=
  match receiver with
  | none => {}
  | some c =>
    match c.1.form with
    | .constant ⟨.closure fields, _⟩ =>
      match fields.find? (·.name == info.name) with
      | some field =>
        if env.settings.choice .capturedValues then
          { isEmpty := (Render.literal env field.value field.ty).isEmpty }
        else { isEmpty := info.name.isEmpty }
      | none => { isEmpty := info.name.isEmpty }
    | _ => {}

def extension (name : String) (display : Option String) (isLeaf : Bool) : DocEnding :=
  match display with
  | some display => { isEmpty := display.isEmpty }
  | none => { isEmpty := name.isEmpty && isLeaf }

def asValue (form : Form Child) : DocEnding :=
  match form with
  | .constant c => { isEmpty := (Render.literal env c.value c.ty).isEmpty }
  | .parameter v => { isEmpty := v.writtenName.isEmpty }
  | .unary op operand ty method => unary env op operand ty method
  | .conditional _ ifTrue ifFalse ty =>
    if Node.isTernary ifTrue.1 ifFalse.1 ty then {} else ifStatement ifTrue ifFalse false
  | .block locals expressions ty => valueBlock env node locals expressions ty
  | .call _ method args => if env.settings.writesConcat method then concat args else {}
  | .member receiver info => member env receiver info
  | .loop _ _ _ => .statement false
  | .jump _ _ _ _ => .jump
  | .label target defaultValue => label env target defaultValue false
  | .switch _ cases defaultBody _ => switch cases defaultBody false
  | .try tried handlers _ _ _ => attempt tried handlers false
  | .default ty => if ty.isVoid then .absent else {}
  | .comment s => { isEmpty := (Render.comment s).isEmpty, isTerminated := true }
  | .extension name _ display operands => extension name display operands.isEmpty
  | _ => {}

def asStatement (form : Form Child) : DocEnding :=
  match form with
  | .block locals expressions ty => nestedBlock env node locals expressions ty false
  | .conditional _ ifTrue ifFalse _ => ifStatement ifTrue ifFalse false
  | _ => asValue env node form

def asReturning (form : Form Child) : DocEnding :=
  let returned (e : DocEnding) : DocEnding := if Render.isNotReturned form then e else .jump
  match form with
  | .block locals expressions ty => nestedBlock env node locals expressions ty true
  | .conditional _ ifTrue ifFalse ty =>
    if Node.isTernary ifTrue.1 ifFalse.1 ty then returned (asValue env node form)
    else ifStatement ifTrue ifFalse (!ty.isVoid)
  | .switch _ cases defaultBody ty => switch cases defaultBody (!ty.isVoid)
  | .try tried handlers _ _ ty => attempt tried handlers (!ty.isVoid)
  | .label target defaultValue => label env target defaultValue true
  | _ => returned (asValue env node form)

def asBody (form : Form Child) (returns : Bool) : DocEnding :=
  match form with
  | .block _ expressions ty => block env node expressions ty (BlockRole.ofBody returns)
  | _ => (if returns then asReturning env node form else asStatement env node form).terminated

def asChained (form : Form Child) (returns : Bool) : DocEnding :=
  match form with
  | .conditional _ ifTrue ifFalse _ => ifStatement ifTrue ifFalse returns
  | _ => asStatement env node form

def asLanding (form : Form Child) (returns : Bool) : DocEnding :=
  match form with
  | .label target defaultValue => label env target defaultValue returns
  | _ => asReturning env node form

/-- How all documents made of a node end, given the same of its children. -/
def ofForm (form : Form Child) : Mode → DocEnding
  | .inPosition .value => asValue env node form
  | .inPosition .statement => asStatement env node form
  | .inPosition .returning => asReturning env node form
  | .body returns => asBody env node form returns
  | .chained returns => asChained env node form returns
  | .landing returns => asLanding env node form returns
  | .elements => {}

end DocEnding

/-- How all documents made of a tree end. -/
def Env.ending (env : Env) (e : Expr) : Mode → DocEnding := e.para (DocEnding.ofForm env)

namespace Env

variable (env : Env)

theorem ending_mk (node : Nat) (form : Form Expr) :
    env.ending (.mk node form) =
      DocEnding.ofForm env node (form.map fun c => (c, env.ending c)) :=
  Node.para_mk ..

end Env

/-! ### Documents that are not empty -/

namespace Atoms

@[simp] theorem token_eq_nil (cls : TokenClass) (s : String) : token cls s = [] ↔ s = "" := by
  unfold token
  split
  next h => simpa using String.isEmpty_iff.mp h
  next h => simpa using fun hs => h (String.isEmpty_iff.mpr hs)

@[simp] theorem text_eq_nil (s : String) : text s = [] ↔ s = "" := token_eq_nil ..

@[simp] theorem keyword_eq_nil (s : String) : keyword s = [] ↔ s = "" := token_eq_nil ..

@[simp] theorem control_eq_nil (s : String) : control s = [] ↔ s = "" := token_eq_nil ..

@[simp] theorem varName_eq_nil (s : String) : varName s = [] ↔ s = "" := token_eq_nil ..

@[simp] theorem mention_eq_nil (node : Nat) (s : String) : mention node s = [] ↔ s = "" := by
  unfold mention
  split
  next h => simpa using String.isEmpty_iff.mp h
  next h => simpa using fun hs => h (String.isEmpty_iff.mpr hs)

@[simp] theorem space_ne_nil : space ≠ [] := by simp [space]

@[simp] theorem operator_ne_nil (level : Level) (s : String) : operator level s ≠ [] := nofun

@[simp] theorem operatorWord_ne_nil (level : Level) (s : String) : operatorWord level s ≠ [] := nofun

@[simp] theorem newline_ne_nil : newline ≠ [] := nofun

@[simp] theorem bracketed_ne_nil (opening closing : String) (as : Atoms) :
    bracketed opening closing as ≠ [] := by
  simp [bracketed]

@[simp] theorem note_ne_nil (n : Note) : note n ≠ [] := nofun

@[simp] theorem typeName_ne_nil (options : TypeNameOptions) (t : TypeRef) :
    typeName options t ≠ [] := by
  simp [typeName]

@[simp] theorem labelLine_ne_nil (target : Target) : labelLine target ≠ [] := by
  simp [labelLine]

@[simp] theorem parens_ne_nil (as : Atoms) : parens as ≠ [] := bracketed_ne_nil _ _ as

end Atoms

/-- Every result ends like this. -/
abbrev Ends (x : Rendering Doc) (e : DocEnding) : Prop := Gives x fun d => d.ending = e

theorem Doc.ending_of_ne_nil {d : Doc} (h : d.atoms ≠ []) :
    d.ending = ⟨false, d.isTerminated, d.endsWithJump⟩ := by
  have hempty : d.isEmpty = false := by simpa [Doc.isEmpty] using h
  rw [Doc.ending, hempty]

namespace Doc

theorem ending_terminated (d : Doc) : d.terminated.ending = d.ending.terminated := by
  unfold Doc.terminated DocEnding.terminated
  by_cases hterminated : d.isTerminated = true
  · simp [hterminated, Doc.ending]
  · simp [hterminated, Doc.ending, Doc.isEmpty]

theorem ending_braced (d : Doc) : d.braced.ending = d.ending.braced :=
  ending_of_ne_nil (Atoms.bracketed_ne_nil _ _ _)

@[simp] theorem ending_noted (d : Doc) (node : Nat) : (d.noted node).ending = d.ending := by
  unfold Doc.noted
  split
  · rfl
  next hempty =>
    have hne : d.atoms ≠ [] := by simpa [Doc.isEmpty] using hempty
    rw [ending_of_ne_nil hne]
    exact ending_of_ne_nil (by simp)

theorem ending_returned (d : Doc) : d.returned.ending = .jump :=
  ending_of_ne_nil (by simp [Doc.returned])

end Doc

end TreeScribe
