import TreeScribe.Analysis.Basic
import TreeScribe.Proofs.Tree.Induction
import TreeScribe.Render.Operator

/-! The surface of a tree: the operators that are written outside all brackets.

A node has signs of its own on the surface, and it leaves some of its children bare, so that
their surfaces are part of its own (`surface`). `Shows` follows the bare children down. A node
is misjudged if its level does not allow for what it has on the surface; apart from what such
nodes show, nothing on the surface binds more loosely than the node
(`level_le_or_slips_of_shows`). -/
namespace TreeScribe

/-- A part of what a node has on the surface. -/
inductive Part where
  | sign (level : Level)
  /-- A child that is written without brackets. -/
  | bare (e : Expr)

/-- The level of the sign, or the one that the child is taken to have. -/
def Part.level : Part → Level
  | .sign level => level
  | .bare e => e.level

abbrev Surface := List Part

namespace Surface

def operand (e : Expr) (level : Level) : Surface := if e.level < level then [] else [.bare e]

def logicalOperand (op : BinaryOp) (e : Expr) : Surface :=
  match e.form with
  | .binary inner _ _ _ _ =>
    if inner == op then [.bare e]
    else if !inner.isChecked && inner != .power && inner != .arrayIndex then []
    else operand e (op.level + 1)
  | _ => operand e (op.level + 1)

def operation (op : BinaryOp) (left right : Expr) : Surface :=
  let sign : Surface := [.sign op.level]
  if op.isLogical then logicalOperand op left ++ sign ++ logicalOperand op right
  else if op == .coalesce then operand left (op.level + 1) ++ sign ++ operand right op.level
  else operand left op.level ++ sign ++ operand right (op.level + 1)

def binary (op : BinaryOp) (left right : Expr) (method : Option MethodInfo) : Surface :=
  if Node.callsMethod method || op == .power then []
  else if op == .arrayIndex then operand left Level.primary
  else if op.isChecked then []
  else operation op left right

def assignment (op : BinaryOp) (left right : Expr) : Surface :=
  [Part.bare left, .sign op.level] ++
    if op == .powerAssign || op.checkedOperator?.isSome then [] else [.bare right]

def signed (isMinus : Bool) (e : Expr) : Surface :=
  .sign Level.unary ::
    if Render.startsWithSign isMinus e then [] else operand e Level.unary

def unary (op : UnaryOp) (operand? : Option Expr) (ty : TypeRef) (method : Option MethodInfo) :
    Surface :=
  match operand? with
  | none => []
  | some e =>
    if Node.callsMethod method then []
    else
      match op with
      | .negate => signed true e
      | .unaryPlus => signed false e
      | .negateChecked => []
      | .not | .onesComplement | .isFalse | .preIncrementAssign | .preDecrementAssign =>
        .sign Level.unary :: operand e Level.unary
      | .isTrue | .quote => [.bare e]
      | .increment | .decrement => operand e Level.additive ++ [Part.sign Level.additive]
      | .postIncrementAssign | .postDecrementAssign | .arrayLength => operand e Level.primary
      | .convert | .convertChecked | .unbox =>
        if e.ty = ty then [.bare e] else .sign Level.unary :: operand e Level.unary
      | .typeAs => operand e Level.relational ++ [Part.sign Level.relational]
      | .throw => [.sign Level.lambda, .bare e]

/-- What is written before the point of a call, if it is a child, and the arguments after it. -/
def receiver (receiver : Option Expr) (m : MethodInfo) (args : List Expr) :
    Surface × List Expr :=
  match receiver, m.isExtension, args with
  | some e, _, args => (operand e Level.primary, args)
  | none, true, e :: args => (operand e Level.primary, args)
  | none, _, args => ([], args)

/-- The value that a call of a property's setter gives it, if it is written as an assignment. -/
def setValue? (m : MethodInfo) (args : List Expr) : Option Expr :=
  match m.property? with
  | none => none
  | some property =>
    if m.isGetter && (args.isEmpty || property == "Item") then none
    else if m.isSetter then args.getLast?
    else none

theorem setValue?_of_none {m : MethodInfo} (h : m.property? = none) (args : List Expr) :
    setValue? m args = none := by
  rw [setValue?, h]

theorem setValue?_of_some {m : MethodInfo} {property : String} (h : m.property? = some property)
    (args : List Expr) :
    setValue? m args =
      if m.isGetter && args.isEmpty || m.isGetter && property == "Item" then none
      else if m.isSetter then args.getLast?
      else none := by
  rw [setValue?, h, ← Bool.and_or_distrib_left]

/-- What a call has after its subject. -/
def setting (m : MethodInfo) (args : List Expr) : Surface :=
  match setValue? m args with
  | some e => [.sign Level.lambda, .bare e]
  | none => []

def call (s : Settings) (receiver : Option Expr) (m : MethodInfo) (args : List Expr) : Surface :=
  if s.writesConcat m then
    args.flatMap (operand · (Level.additive + 1)) ++
      if 1 < args.length then [.sign Level.additive] else []
  else
    let (subject, args) := Surface.receiver receiver m args
    subject ++ setting m args

def conditional (test ifTrue ifFalse : Expr) (ty : TypeRef) : Surface :=
  if Node.isTernary ifTrue ifFalse ty then
    operand test Level.coalesce ++ [Part.sign Level.conditional] ++
      operand ifTrue Level.conditional ++ operand ifFalse Level.conditional
  else []

def typeTest (e : Expr) (exact : Bool) : Surface :=
  if exact then operand e Level.primary ++ [Part.sign Level.equality]
  else operand e Level.relational ++ [Part.sign Level.relational]

end Surface

/-- What a node has on the surface. -/
def Form.surface (s : Settings) : Form Expr → Surface
  | .binary op left right _ method =>
    if op.isAssignment then Surface.assignment op left right
    else Surface.binary op left right method
  | .unary op operand? ty method => Surface.unary op operand? ty method
  | .conditional test ifTrue ifFalse ty => Surface.conditional test ifTrue ifFalse ty
  | .block [] [only] _ => [.bare only]
  | .lambda _ _ body _ _ =>
    .sign Level.lambda :: if body.rendersAsStatements then [] else [.bare body]
  | .call receiver method args => Surface.call s receiver method args
  | .invoke target _ _ =>
    if target.isLambda then [] else Surface.operand target Level.primary
  | .member (some e) _ => if e.isClosure then [] else Surface.operand e Level.primary
  | .jump .return _ (some e) _ => [.bare e]
  | .index object _ _ _ => Surface.operand object Level.primary
  | .typeTest e _ exact => Surface.typeTest e exact
  | _ => []

/-- An operator of this level is on the surface. -/
inductive Shows (s : Settings) : Expr → Level → Prop where
  | sign {node : Nat} {form : Form Expr} {level : Level} :
      .sign level ∈ form.surface s → Shows s (.mk node form) level
  | bare {node : Nat} {form : Form Expr} {e : Expr} {level : Level} :
      .bare e ∈ form.surface s → Shows s e level → Shows s (.mk node form) level

/-- The level of the node does not allow for what it has on the surface: it is written as its one
expression, with an assignment, after `return`, or with a sign to which its level is deaf. -/
def Form.isMisjudged (s : Settings) : Form Expr → Bool
  | .block locals expressions _ => Form.isTransparent locals expressions
  | .jump .return _ (some _) _ => true
  | .binary op _ _ _ method => op.isAssignment && Node.callsMethod method
  | .unary .increment (some _) _ method | .unary .decrement (some _) _ method =>
    !Node.callsMethod method
  | .call receiver m args =>
    !s.writesConcat m && (Surface.setValue? m (Surface.receiver receiver m args).2).isSome
  | _ => false

/-- An operator of this level is on the surface of a misjudged node that is not in brackets. -/
inductive Slips (s : Settings) : Expr → Level → Prop where
  | here {node : Nat} {form : Form Expr} {level : Level} :
      form.isMisjudged s = true → Shows s (.mk node form) level → Slips s (.mk node form) level
  | bare {node : Nat} {form : Form Expr} {e : Expr} {level : Level} :
      .bare e ∈ form.surface s → Slips s e level → Slips s (.mk node form) level

theorem Slips.shows {s : Settings} {e : Expr} {level : Level} (h : Slips s e level) :
    Shows s e level := by
  induction h with
  | here _ hshows => exact hshows
  | bare hmem _ ih => exact .bare hmem ih

/-! ### Levels and the surface -/

theorem BinaryOp.level_le_primary (op : BinaryOp) : op.level ≤ Level.primary := by
  cases op <;> decide

namespace Node

theorem level_mk (node : Nat) (form : Form Expr) :
    level (.mk node form) =
      match form with
      | .binary op _ _ _ method =>
        if op.isChecked && !op.isAssignment then Level.primary
        else if callsMethod method then Level.primary
        else op.level
      | .unary op operand? ty method =>
        unaryLevel op (operand?.map fun e => (e, level e)) ty method
      | .conditional _ _ _ _ => Level.conditional
      | .lambda _ _ _ _ _ => Level.lambda
      | .typeTest _ _ exact => if exact then Level.equality else Level.relational
      | .constant c => if c.value.isNegative then Level.unary else Level.primary
      | .call _ method _ => if isConcat method then Level.additive else Level.primary
      | _ => Level.primary := by
  rw [level, para_mk]
  cases form <;> rfl

theorem le_level_binary (node : Nat) (op : BinaryOp) (left right : Expr) (ty : TypeRef)
    (method : Option MethodInfo) : op.level ≤ level (.mk node (.binary op left right ty method)) := by
  rw [level_mk]
  dsimp only
  split
  · exact op.level_le_primary
  · split
    · exact op.level_le_primary
    · exact Nat.le_refl _

end Node

namespace Surface

theorem level_le_of_mem_operand {e : Expr} {level : Level} {p : Part} (h : p ∈ operand e level) :
    level ≤ p.level := by
  unfold operand at h
  split at h
  · cases h
  next hlevel =>
    rw [List.mem_singleton] at h
    subst h
    exact Nat.le_of_not_lt hlevel

/-- An operation of the same logical operator binds at its level, or as a call. -/
theorem level_le_of_mem_logicalOperand {op : BinaryOp} (hop : op.isLogical = true) {e : Expr}
    {p : Part} (h : p ∈ logicalOperand op e) : op.level ≤ p.level := by
  obtain ⟨node, form⟩ := e
  unfold logicalOperand at h
  split at h
  next inner left right ty method hform =>
    split at h
    next heq =>
      rw [List.mem_singleton] at h
      rw [beq_iff_eq] at heq
      have hform : form = .binary inner left right ty method := hform
      subst h heq hform
      show inner.level ≤ Node.level _
      exact Node.le_level_binary ..
    · split at h
      · cases h
      · exact Nat.le_of_succ_le (level_le_of_mem_operand h)
  · exact Nat.le_of_succ_le (level_le_of_mem_operand h)

theorem level_le_of_mem_operation {op : BinaryOp} {left right : Expr} {p : Part}
    (h : p ∈ operation op left right) : op.level ≤ p.level := by
  unfold operation at h
  dsimp only at h
  split at h
  next hop =>
    rcases List.mem_append.mp h with h | h
    · rcases List.mem_append.mp h with h | h
      · exact level_le_of_mem_logicalOperand hop h
      · rw [List.mem_singleton.mp h]
        exact Nat.le_refl _
    · exact level_le_of_mem_logicalOperand hop h
  · split at h
    · rcases List.mem_append.mp h with h | h
      · rcases List.mem_append.mp h with h | h
        · exact Nat.le_of_succ_le (level_le_of_mem_operand h)
        · rw [List.mem_singleton.mp h]
          exact Nat.le_refl _
      · exact level_le_of_mem_operand h
    · rcases List.mem_append.mp h with h | h
      · rcases List.mem_append.mp h with h | h
        · exact level_le_of_mem_operand h
        · rw [List.mem_singleton.mp h]
          exact Nat.le_refl _
      · exact Nat.le_of_succ_le (level_le_of_mem_operand h)

variable {p : Part}

theorem level_le_of_mem_binary {node : Nat} {op : BinaryOp} {left right : Expr} {ty : TypeRef}
    {method : Option MethodInfo} (h : p ∈ binary op left right method) :
    Node.level (.mk node (.binary op left right ty method)) ≤ p.level := by
  rw [Node.level_mk]
  unfold binary at h
  split at h
  · cases h
  next hcalls =>
    rw [Bool.or_eq_true, not_or] at hcalls
    split at h
    next hop =>
      rw [beq_iff_eq] at hop
      subst hop
      simpa [hcalls.1, BinaryOp.isChecked, BinaryOp.level] using level_le_of_mem_operand h
    · split at h
      · cases h
      next hchecked => simpa [hcalls.1, hchecked] using level_le_of_mem_operation h

theorem level_le_of_mem_signed {isMinus : Bool} {e : Expr} (h : p ∈ signed isMinus e) :
    Level.unary ≤ p.level := by
  rcases List.mem_cons.mp h with rfl | h
  · exact Nat.le_refl _
  · split at h
    · cases h
    · exact level_le_of_mem_operand h

theorem level_le_of_mem_prefixed {e : Expr} {level : Level}
    (h : p ∈ .sign level :: operand e level) : level ≤ p.level := by
  rcases List.mem_cons.mp h with rfl | h
  · exact Nat.le_refl _
  · exact level_le_of_mem_operand h

theorem level_le_of_mem_postfixed {e : Expr} {level below : Level} (hbelow : below ≤ level)
    (h : p ∈ operand e level ++ [Part.sign below]) : below ≤ p.level := by
  rcases List.mem_append.mp h with h | h
  · exact Nat.le_trans hbelow (level_le_of_mem_operand h)
  · rw [List.mem_singleton.mp h]
    exact Nat.le_refl _

/-- Increments and decrements apart. -/
theorem level_le_of_mem_unary {node : Nat} {op : UnaryOp} {operand? : Option Expr}
    {ty : TypeRef} {method : Option MethodInfo} (hincrement : op ≠ .increment)
    (hdecrement : op ≠ .decrement) (h : p ∈ unary op operand? ty method) :
    Node.level (.mk node (.unary op operand? ty method)) ≤ p.level := by
  rw [Node.level_mk]
  cases operand? with
  | none => cases h
  | some e =>
    unfold unary at h
    dsimp only at h
    split at h
    · cases h
    next hcalls =>
      cases op with
      | increment | decrement => contradiction
      | negateChecked => cases h
      | negate | unaryPlus => simpa [Node.unaryLevel, hcalls] using level_le_of_mem_signed h
      | not | onesComplement | isFalse | preIncrementAssign | preDecrementAssign =>
        simpa [Node.unaryLevel, hcalls] using level_le_of_mem_prefixed h
      | isTrue =>
        rw [List.mem_singleton.mp h]
        exact Nat.le_refl _
      | quote | throw => exact Nat.zero_le _
      | postIncrementAssign | postDecrementAssign | arrayLength => exact level_le_of_mem_operand h
      | convert | convertChecked | unbox =>
        dsimp only [Node.unaryLevel, Option.map_some] at h ⊢
        split at h
        next hty =>
          rw [List.mem_singleton.mp h, if_pos hty]
          exact Nat.le_refl _
        next hty =>
          rw [if_neg hty]
          exact level_le_of_mem_prefixed h
      | typeAs => exact level_le_of_mem_postfixed (Nat.le_refl _) h

theorem primary_le_of_mem_receiver {receiver : Option Expr} {m : MethodInfo} {args : List Expr}
    (h : p ∈ (Surface.receiver receiver m args).1) : Level.primary ≤ p.level := by
  unfold Surface.receiver at h
  split at h
  · exact level_le_of_mem_operand h
  · exact level_le_of_mem_operand h
  · cases h

theorem level_le_of_mem_call {node : Nat} {s : Settings} {receiver : Option Expr} {m : MethodInfo}
    {args : List Expr} (hjudged : (Form.call receiver m args).isMisjudged s = false)
    (h : p ∈ call s receiver m args) :
    Node.level (.mk node (.call receiver m args)) ≤ p.level := by
  rw [Node.level_mk]
  unfold call at h
  split at h
  next hconcat =>
    have hconcat : Node.isConcat m = true := by
      unfold Settings.writesConcat at hconcat
      simp_all
    dsimp only
    rw [if_pos hconcat]
    rcases List.mem_append.mp h with h | h
    · obtain ⟨e, -, h⟩ := List.mem_flatMap.mp h
      exact Nat.le_of_succ_le (level_le_of_mem_operand h)
    · split at h
      · rw [List.mem_singleton.mp h]
        exact Nat.le_refl _
      · cases h
  next hconcat =>
    have hnone : setValue? m (Surface.receiver receiver m args).2 = none := by
      simpa [Form.isMisjudged, hconcat] using hjudged
    have hprimary : (if Node.isConcat m then Level.additive else Level.primary) ≤
        Level.primary := by
      split <;> decide
    simp only [setting, hnone, List.append_nil] at h
    exact Nat.le_trans hprimary (primary_le_of_mem_receiver h)

theorem level_le_of_mem_conditional {test ifTrue ifFalse : Expr} {ty : TypeRef}
    (h : p ∈ conditional test ifTrue ifFalse ty) : Level.conditional ≤ p.level := by
  unfold conditional at h
  split at h
  · rcases List.mem_append.mp h with h | h
    · rcases List.mem_append.mp h with h | h
      · exact level_le_of_mem_postfixed (by decide) h
      · exact level_le_of_mem_operand h
    · exact level_le_of_mem_operand h
  · cases h

end Surface

theorem Node.level_assignment {node : Nat} {op : BinaryOp} {left right : Expr} {ty : TypeRef}
    {method : Option MethodInfo} (hop : op.isAssignment = true) (h : callsMethod method = false) :
    level (.mk node (.binary op left right ty method)) = Level.lambda := by
  have hlevel : op.level = Level.lambda := by
    cases op <;> first | rfl | cases hop
  rw [level_mk]
  simp [hop, h, hlevel]

/-- What a node has on the surface does not bind more loosely than the node, unless it is
misjudged. -/
theorem level_le_of_mem_surface {s : Settings} {node : Nat} {form : Form Expr}
    (hjudged : form.isMisjudged s = false) {p : Part} (h : p ∈ form.surface s) :
    Node.level (.mk node form) ≤ p.level := by
  unfold Form.surface at h
  split at h
  next op left right ty method =>
    split at h
    next hop =>
      have hcalls : Node.callsMethod method = false := by
        simpa [Form.isMisjudged, hop] using hjudged
      rw [Node.level_assignment hop hcalls]
      exact Nat.zero_le _
    · exact Surface.level_le_of_mem_binary h
  next op operand? ty method =>
    by_cases hop : op = .increment ∨ op = .decrement
    · -- with an operand such a node is misjudged, unless it calls a method and shows nothing
      cases operand? with
      | none => cases h
      | some e =>
        have hcalls : Node.callsMethod method = true := by
          rcases hop with rfl | rfl <;> simpa [Form.isMisjudged] using hjudged
        simp [Surface.unary, hcalls] at h
    · rw [not_or] at hop
      exact Surface.level_le_of_mem_unary hop.1 hop.2 h
  · rw [Node.level_mk]
    exact Surface.level_le_of_mem_conditional h
  · cases hjudged
  · rw [Node.level_mk]
    exact Nat.zero_le _
  · exact Surface.level_le_of_mem_call hjudged h
  · split at h
    · cases h
    · rw [Node.level_mk]
      exact Surface.level_le_of_mem_operand h
  · split at h
    · cases h
    · rw [Node.level_mk]
      exact Surface.level_le_of_mem_operand h
  · cases hjudged
  · rw [Node.level_mk]
    exact Surface.level_le_of_mem_operand h
  next e tested exact =>
    rw [Node.level_mk]
    cases exact with
    | true =>
      have hbelow : Level.equality ≤ Level.primary := by decide
      exact Surface.level_le_of_mem_postfixed hbelow h
    | false => exact Surface.level_le_of_mem_postfixed (Nat.le_refl _) h
  · cases h

/-- **Only misjudged nodes show an operator that binds more loosely than the tree they are
part of.** -/
theorem level_le_or_slips_of_shows {s : Settings} {e : Expr} {level : Level}
    (h : Shows s e level) : e.level ≤ level ∨ Slips s e level := by
  induction h with
  | @sign node form level hmem =>
    by_cases hjudged : form.isMisjudged s = true
    · exact .inr (.here hjudged (.sign hmem))
    · exact .inl (level_le_of_mem_surface (Bool.eq_false_iff.mpr hjudged) hmem)
  | @bare node form e level hmem hshows ih =>
    by_cases hjudged : form.isMisjudged s = true
    · exact .inr (.here hjudged (.bare hmem hshows))
    · rcases ih with hle | hslips
      · have hnode : Node.level (.mk node form) ≤ e.level :=
          level_le_of_mem_surface (Bool.eq_false_iff.mpr hjudged) hmem
        exact .inl (Nat.le_trans hnode hle)
      · exact .inr (.bare hmem hslips)

end TreeScribe
