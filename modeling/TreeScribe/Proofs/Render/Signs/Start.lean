import TreeScribe.Proofs.Layout.Page
import TreeScribe.Proofs.Render.Occurrences
import TreeScribe.Proofs.Render.Operand

/-! How texts begin.

Without custom renderers the way in which the text of a tree begins can be told from the tree:
the child that is written first is followed down to a name, a literal, a sign or a bracket. -/
namespace TreeScribe

open Render Atoms

/-- How a text begins, as far as signs go. -/
inductive Start where
  /-- There is no text. -/
  | nothing
  | sign (isMinus : Bool)
  | other
deriving DecidableEq, Repr

def signChar (isMinus : Bool) : Char := if isMinus then '-' else '+'

namespace Start

def of : List Char → Start
  | [] => .nothing
  | '-' :: _ => .sign true
  | '+' :: _ => .sign false
  | _ => .other

def ofText (s : String) : Start := of s.toList

/-- The start of a text before another one. -/
def or : Start → Start → Start
  | .nothing, t => t
  | s, _ => s

@[simp] theorem nothing_or (t : Start) : nothing.or t = t := rfl

@[simp] theorem sign_or (isMinus : Bool) (t : Start) : (sign isMinus).or t = sign isMinus := rfl

@[simp] theorem other_or (t : Start) : other.or t = other := rfl

@[simp] theorem or_nothing (s : Start) : s.or nothing = s := by
  cases s <;> rfl

theorem or_other_ne_nothing (s : Start) : s.or other ≠ nothing := by
  cases s <;> exact nofun

theorem or_eq_sign_iff {s t : Start} {isMinus : Bool} (ht : t ≠ sign isMinus) :
    s.or t = sign isMinus ↔ s = sign isMinus := by
  cases s <;> simp [ht]

theorem of_cons (c : Char) (cs : List Char) :
    of (c :: cs) = if c = '-' then .sign true else if c = '+' then .sign false else .other := by
  unfold of
  split <;> simp_all

theorem of_append (xs ys : List Char) : of (xs ++ ys) = (of xs).or (of ys) := by
  cases xs with
  | nil => rfl
  | cons c xs =>
    rw [List.cons_append, of_cons, of_cons]
    split
    · rfl
    · split <;> rfl

theorem of_take (k : Nat) (cs : List Char) : of (cs.take (k + 1)) = of cs := by
  cases cs with
  | nil => rfl
  | cons c cs => rw [List.take_succ_cons, of_cons, of_cons]

theorem ofText_append (s t : String) : ofText (s ++ t) = (ofText s).or (ofText t) := by
  rw [ofText, String.toList_append, of_append]
  rfl

theorem of_eq_sign_iff (cs : List Char) (isMinus : Bool) :
    of cs = .sign isMinus ↔ cs.head? = some (signChar isMinus) := by
  cases cs with
  | nil => simp [of]
  | cons c cs =>
    rw [of_cons]
    cases isMinus <;> simp [signChar] <;> grind

/-! ### Numbers -/

theorem of_digits (n : Nat) (cs : List Char) : of ((toString n).toList ++ cs) = .other := by
  have hdigits : (toString n).toList = Nat.toDigits 10 n := Nat.toList_repr
  obtain ⟨c, rest, hrest⟩ := List.exists_cons_of_ne_nil (Nat.toDigits_ne_nil (n := n) (b := 10))
  have hc : c.isDigit = true := by
    refine Nat.isDigit_of_mem_toDigits (n := n) (b := 10) (by decide) (by decide) ?_
    simp [hrest]
  have hminus : c ≠ '-' := by
    rintro rfl
    exact absurd hc (by decide)
  have hplus : c ≠ '+' := by
    rintro rfl
    exact absurd hc (by decide)
  rw [hdigits, hrest, List.cons_append, of_cons, if_neg hminus, if_neg hplus]

theorem ofText_nat (n : Nat) (s : String) : ofText (toString n ++ s) = .other := by
  rw [ofText, String.toList_append]
  exact of_digits n _

theorem ofText_int (n : Int) (s : String) :
    ofText (toString n ++ s) = if n < 0 then .sign true else .other := by
  cases n with
  | ofNat n => exact ofText_nat n s
  | negSucc n =>
    show ofText ("-" ++ toString (n + 1) ++ s) = _
    rw [ofText_append, ofText_append, if_pos (Int.negSucc_lt_zero n)]
    rfl

theorem ofText_positional (style : Number.Style) (n : Nat) (point : Int) :
    ofText (style.positionalText (toString n) point) = .other := by
  unfold Number.Style.positionalText
  dsimp only
  split
  · rw [String.append_assoc, ofText_append]
    rfl
  next hpoint =>
    split
    · rw [String.append_assoc]
      exact ofText_nat n _
    · obtain ⟨k, hk⟩ : ∃ k, point.toNat = k + 1 := ⟨point.toNat - 1, by omega⟩
      have hdigits : of (toString n).toList = .other := by
        simpa using of_digits n []
      rw [String.append_assoc, ofText_append, ofText, String.toList_ofList, hk,
        of_take, hdigits]
      rfl

end Start

namespace Atoms

/-- How the written characters begin. -/
def start (as : Atoms) : Start := .of (as.flatMap Atom.chars)

@[simp] theorem start_append (as bs : Atoms) : start (as ++ bs) = (start as).or (start bs) := by
  rw [start, List.flatMap_append, Start.of_append]
  rfl

@[simp] theorem start_token (cls : TokenClass) (s : String) : start (token cls s) = .ofText s := by
  rw [start, chars_token]
  rfl

@[simp] theorem start_text (s : String) : start (text s) = .ofText s := start_token ..

@[simp] theorem start_varName (s : String) : start (varName s) = .ofText s := start_token ..

@[simp] theorem start_methodName (s : String) : start (methodName s) = .ofText s := start_token ..

@[simp] theorem start_mention (node : Nat) (s : String) : start (mention node s) = .ofText s := by
  unfold mention
  split
  next hempty =>
    rw [String.isEmpty_iff.mp hempty]
    rfl
  · simp [start, Atom.chars, Start.ofText]

@[simp] theorem start_note (n : Note) : start (note n) = .nothing := rfl

theorem start_followed (as : Atoms) {bs : Atoms} {s : Start} (h : start bs = s) :
    start (as ++ bs) = (start as).or s := by
  rw [start_append, h]

end Atoms

namespace Start

/-! ### The start of a node -/

variable (env : Env) (declared : List Slot) (node : Nat)

/-- The name of a type, which something follows. -/
def typeName (t : TypeRef) : Start := (env.typeName t).start.or .other

/-- Zero may have the sign bit, and the digits of an exact decimal are taken as they come; both
do not count as negative. -/
def literal (v : ConstantValue) (ty : TypeRef) : Start :=
  match v with
  | .int n => if n < 0 then .sign true else .other
  | .float (.finite negative _ _) => if negative then .sign true else .other
  | .float _ | .enumMember _ => typeName env ty
  | .decimal digits => (ofText digits).or .other
  | .closure _ => (env.typeName ty).start
  | .object display => ofText display
  | _ => .other

/-- A child with the start of its text. -/
abbrev Child := Expr × Start

def operand (c : Child) (level : Level) : Start := if c.1.level < level then .other else c.2

def logicalOperand (op : BinaryOp) (c : Child) : Start :=
  match c.1.form with
  | .binary inner _ _ _ _ =>
    if inner == op then c.2
    else if !inner.isChecked && inner != .power && inner != .arrayIndex then .other
    else operand c (op.level + 1)
  | _ => operand c (op.level + 1)

def operation (op : BinaryOp) (left : Child) : Start :=
  let first :=
    if op.isLogical then logicalOperand op left
    else if op == .coalesce then operand left (op.level + 1)
    else operand left op.level
  first.or .other

def binary (op : BinaryOp) (left : Child) (method : Option MethodInfo) : Start :=
  match method.filter (!·.isOperator) with
  | some m => typeName env m.declaring
  | none =>
    if op == .power then typeName env .math
    else if op == .arrayIndex then (operand left Level.primary).or .other
    else if op.isChecked then .other
    else operation op left

/-- What declares the variable of an assignment, if this assignment does. -/
def declaration (left : Expr) : Start :=
  match env.analysis.target? node with
  | none => .nothing
  | some slot =>
    if ((env.analysis.scopes.declaresAssignment slot node).run declared).1 then
      if env.analysis.isTypedJoin node then typeName env left.ty else .other
    else .nothing

def assignment (left : Child) : Start :=
  (declaration env declared node left.1).or (left.2.or .other)

def unary (op : UnaryOp) (operand? : Option Child) (ty : TypeRef) (method : Option MethodInfo) :
    Start :=
  match operand? with
  | none => .other
  | some c =>
    match method.filter (!·.isOperator) with
    | some m => typeName env m.declaring
    | none =>
      match op with
      | .negate | .preDecrementAssign => .sign true
      | .unaryPlus | .preIncrementAssign => .sign false
      | .negateChecked | .not | .onesComplement | .isFalse | .throw => .other
      | .isTrue => c.2
      | .increment | .decrement => (operand c Level.additive).or .other
      | .postIncrementAssign => (operand c Level.primary).or (.sign false)
      | .postDecrementAssign => (operand c Level.primary).or (.sign true)
      | .convert | .convertChecked | .unbox => if c.1.ty = ty then c.2 else .other
      | .typeAs => (operand c Level.relational).or .other
      | .quote => if env.settings.choice .quoteComments then .other else c.2
      | .arrayLength => (operand c Level.primary).or .other

def block (locals : List Variable) (expressions : List Child) : Start :=
  match locals, expressions with
  | [], [only] => only.2
  | _, _ =>
    match env.calls.lookup node with
    | some call => (ofText call.name).or .other
    | none => .other

def concat : List Child → Start
  | [] => .nothing
  | [c] => operand c (Level.additive + 1)
  | c :: _ => (operand c (Level.additive + 1)).or .other

def call (receiver : Option Child) (m : MethodInfo) (args : List Child) : Start :=
  if env.settings.writesConcat m then concat args
  else
    match receiver, m.isExtension, args with
    | some c, _, _ | none, true, c :: _ => (operand c Level.primary).or .other
    | none, _, _ => typeName env m.declaring

def member (receiver : Option Child) (info : MemberInfo) : Start :=
  match receiver with
  | none => typeName env info.declaring
  | some c =>
    match c.1.form with
    | .constant ⟨.closure fields, _⟩ =>
      match fields.find? (·.name == info.name) with
      | some field =>
        if env.settings.choice .capturedValues then literal env field.value field.ty
        else ofText info.name
      | none => ofText info.name
    | _ => (operand c Level.primary).or .other

def extension (name : String) (display : Option String) (isLeaf : Bool) : Start :=
  match display with
  | some display => ofText display
  | none => if isLeaf then ofText name else (ofText name).or .other

/-- The start of the text of a node as a value, given those of its children. -/
def ofForm (form : Form Child) : Start :=
  match form with
  | .constant c => literal env c.value c.ty
  | .parameter v => ofText v.writtenName
  | .binary op left _ _ method =>
    if op.isAssignment then assignment env declared node left else binary env op left method
  | .unary op operand? ty method => unary env op operand? ty method
  | .conditional test ifTrue ifFalse ty =>
    if Node.isTernary ifTrue.1 ifFalse.1 ty then (operand test Level.coalesce).or .other else .other
  | .block locals expressions _ => block env node locals expressions
  | .lambda _ parameters _ _ _ => (lambdaParameters env node parameters).start.or .other
  | .call receiver method args => call env receiver method args
  | .invoke target _ _ =>
    if target.1.isLambda then .other else (operand target Level.primary).or .other
  | .member receiver info => member env receiver info
  | .label target _ =>
    if env.analysis.isJumpTarget target then (ofText target.writtenName).or .other else .nothing
  | .default ty => if ty.isVoid then .nothing else .other
  | .index object _ _ _ => (operand object Level.primary).or .other
  | .typeTest c _ exact => (operand c (if exact then Level.primary else Level.relational)).or .other
  | .comment s => if (Text.lines s.toList).isEmpty then .nothing else .other
  | .extension name _ display operands => extension name display operands.isEmpty
  | _ => .other

end Start

/-- The start of the text of a tree as a value, where these variables have been declared. -/
def Env.start (env : Env) (declared : List Slot) (e : Expr) : Start :=
  e.para (Start.ofForm env declared)

theorem Env.start_mk (env : Env) (declared : List Slot) (node : Nat) (form : Form Expr) :
    env.start declared (.mk node form) =
      Start.ofForm env declared node (form.map fun c => (c, env.start declared c)) :=
  Node.para_mk ..

/-! ### What is rendered first -/

/-- The result has the property where these variables have been declared. -/
def GivesFrom {α : Type} (declared : List Slot) (x : Rendering α) (P : α → Prop) : Prop :=
  P (x.run declared).1

namespace GivesFrom

variable {α β : Type} {declared : List Slot} {P : α → Prop} {R : β → Prop}

theorem pure {a : α} (h : P a) : GivesFrom declared (Pure.pure a) P := h

/-- Only what comes first sees what had been declared. -/
theorem bind {x : Rendering α} {f : α → Rendering β} (hx : GivesFrom declared x P)
    (hf : ∀ a, P a → Gives (f a) R) : GivesFrom declared (x >>= f) R :=
  hf _ hx _

theorem after {x : Rendering α} {f : α → Rendering β} (hf : ∀ a, Gives (f a) R) :
    GivesFrom declared (x >>= f) R :=
  hf _ _

/-- What comes next sees what the first part has declared. -/
theorem next {x : Rendering α} {f : α → Rendering β}
    (hf : GivesFrom (x.run declared).2 (f (x.run declared).1) R) : GivesFrom declared (x >>= f) R :=
  hf

theorem map {x : Rendering α} {f : α → β} (hx : GivesFrom declared x P) (hf : ∀ a, P a → R (f a)) :
    GivesFrom declared (f <$> x) R :=
  hf _ hx

end GivesFrom

theorem Gives.from {α : Type} {x : Rendering α} {P : α → Prop} (h : Gives x P)
    (declared : List Slot) : GivesFrom declared x P :=
  h declared

/-- The text of the document begins so. -/
abbrev StartsAs (declared : List Slot) (x : Rendering Doc) (s : Start) : Prop :=
  GivesFrom declared x fun d => d.atoms.start = s

/-- The text begins so, whatever has been declared. -/
abbrev AlwaysStartsAs (x : Rendering Doc) (s : Start) : Prop := Gives x fun d => d.atoms.start = s

end TreeScribe
