import TreeScribe.Proofs.Render.Signs.Start

/-! How literals and operators begin. -/
namespace TreeScribe

open Render Atoms

namespace Render

variable (env : Env)

/-! ### Literals -/

theorem start_typeName (t : TypeRef) {as : Atoms} (h : as.start = .other) :
    (env.typeName t ++ as).start = Start.typeName env t :=
  start_followed _ h

theorem ofText_magnitude (m e : Nat) : Start.ofText (numberStyle.magnitudeText m e) = .other := by
  unfold Number.Style.magnitudeText
  split
  · rfl
  · exact Start.ofText_positional numberStyle _ _

/-- The sign bit decides, also that of zero. -/
theorem start_realLiteral (x : Number.Binary64) (ty : TypeRef) :
    (realLiteral env x ty).start = Start.literal env (.float x) ty := by
  have hmember (name : String) :
      (env.typeName ty ++ text "." ++ text name).start = Start.typeName env ty := by
    rw [List.append_assoc]
    exact start_typeName env ty rfl
  cases x with
  | nan => exact hmember _
  | infinite negative => exact hmember _
  | finite negative m e =>
    show (token .numeric ((if negative then "-" else "") ++ numberStyle.magnitudeText m e ++ _)).start = _
    rw [start_token, Start.ofText_append, Start.ofText_append, ofText_magnitude]
    cases negative <;> rfl

theorem start_literal (v : ConstantValue) (ty : TypeRef) :
    (literal env v ty).atoms.start = Start.literal env v ty := by
  show (literalAtoms env v ty).start = _
  cases v with
  | int n => exact (start_token ..).trans (Start.ofText_int _ _)
  | uint n => exact (start_token ..).trans (Start.ofText_nat _ _)
  | float x => exact start_realLiteral env x ty
  | decimal digits => exact (start_token ..).trans (Start.ofText_append ..)
  | enumMember name =>
    rw [literalAtoms, List.append_assoc]
    exact start_typeName env ty rfl
  | bool b => cases b <;> rfl
  | object display => exact start_text display
  | char c =>
    rw [literalAtoms, start_token, Start.ofText, quotedLiteral, String.toList_ofList]
    rfl
  | string s =>
    rw [literalAtoms, start_token, Start.ofText, quotedLiteral, String.toList_ofList]
    rfl
  | null | type _ | closure _ => rfl

theorem ofText_commentLine (line : List Char) : Start.ofText (commentLine line) = .other := by
  unfold commentLine
  dsimp only
  split
  next hslashes =>
    obtain ⟨rest, hrest⟩ := List.isPrefixOf_iff_prefix.mp hslashes
    rw [← hrest, Start.ofText, String.toList_ofList]
    rfl
  · rw [Start.ofText_append]
    rfl

theorem start_comment (s : String) :
    (comment s).atoms.start = if (Text.lines s.toList).isEmpty then .nothing else .other := by
  show (commentLines (Text.lines s.toList)).start = _
  cases Text.lines s.toList with
  | nil => rfl
  | cons line lines =>
    cases lines with
    | nil => exact (start_token ..).trans (ofText_commentLine line)
    | cons line' lines =>
      show (token .comment (commentLine line) ++ newline ++ commentLines (line' :: lines)).start = _
      rw [List.append_assoc, start_append, start_token, ofText_commentLine]
      rfl

theorem start_defaultValue (ty : TypeRef) :
    (defaultValue env ty).atoms.start = if ty.isVoid then .nothing else .other := by
  unfold defaultValue
  split <;> rfl

/-! ### Operators -/

section Child

variable {declared : List Slot} {c : Child} {s : Start} (h : StartsAs declared (value c) s)

include h

theorem starts_operand (level : Level) :
    StartsAs declared (operand c level) (Start.operand (c.1, s) level) := by
  refine h.bind fun d hd => .pure ?_
  unfold Start.operand
  split
  · rfl
  · exact hd

theorem starts_logicalOperand (op : BinaryOp) :
    StartsAs declared (logicalOperand op c) (Start.logicalOperand op (c.1, s)) := by
  obtain ⟨⟨node, form⟩, r⟩ := c
  cases form with
  | binary inner left right ty method =>
    dsimp only [logicalOperand, Start.logicalOperand, Node.form]
    split
    · exact h
    · split
      · exact h.bind fun d hd => .pure rfl
      · exact starts_operand h _
  | _ => exact starts_operand h _

/-- The text of the operand comes first, and then a text that begins as given. -/
theorem starts_followed (level : Level) {t : Start} {rest : Doc → Rendering Doc}
    (hrest : ∀ d, AlwaysStartsAs (rest d) (d.atoms.start.or t)) :
    StartsAs declared (operand c level >>= rest) ((Start.operand (c.1, s) level).or t) := by
  refine (starts_operand h level).bind fun d hd => ?_
  rw [← hd]
  exact hrest d

theorem starts_operation (op : BinaryOp) (right : Child) (ty : TypeRef) :
    StartsAs declared (operation op c right ty) (Start.operation op (c.1, s)) := by
  have hfirst : GivesFrom declared (operands op c right) fun ds =>
      ds.1.atoms.start.or .other = Start.operation op (c.1, s) := by
    unfold operands Start.operation
    dsimp only
    split
    · exact (starts_logicalOperand h op).bind fun d hd => .after fun _ => .pure (by rw [hd])
    · split
      · exact (starts_operand h _).bind fun d hd => .after fun _ => .pure (by rw [hd])
      · exact (starts_operand h _).bind fun d hd => .after fun _ => .pure (by rw [hd])
  refine hfirst.bind fun ds hds => .pure ?_
  rw [← hds]
  dsimp only
  rw [List.append_assoc, List.append_assoc]
  exact start_followed _ rfl

end Child

theorem starts_staticCall (kind : NodeKind) (declaring : TypeRef) (name : String) (ty : TypeRef)
    (args : List Child) :
    AlwaysStartsAs (staticCall env kind declaring name ty args) (Start.typeName env declaring) := by
  refine .after fun ds => .pure ?_
  dsimp only
  rw [List.append_assoc, List.append_assoc]
  exact start_typeName env declaring rfl

section Operators

variable {declared : List Slot} {left : Child} {s : Start} (h : StartsAs declared (value left) s)

include h

theorem starts_binary (op : BinaryOp) (right : Child) (ty : TypeRef) (method : Option MethodInfo) :
    StartsAs declared (binary env op left right ty method)
      (Start.binary env op (left.1, s) method) := by
  unfold binary Start.binary
  generalize method.filter (!·.isOperator) = called
  cases called with
  | some m => exact (starts_staticCall env _ _ _ _ _).from declared
  | none =>
    dsimp only
    split
    · exact (starts_staticCall env _ _ _ _ _).from declared
    · split
      · exact starts_followed h _ fun d => .after fun _ => .pure (start_followed _ rfl)
      · split
        · exact .after fun _ => .pure rfl
        · exact starts_operation h op right ty

omit h in
/-- Only an assignment that declares its variable changes what has been declared. -/
theorem run_declaringAtoms (node : Nat) (left : Child) (declared : List Slot) :
    let r := (declaringAtoms env node left).run declared
    r.1.start = Start.declaration env declared node left.1 ∧ (r.1.start = .nothing → r.2 = declared) := by
  unfold declaringAtoms Start.declaration ScopeTree.declaresAssignment
  cases env.analysis.target? node with
  | none => exact ⟨rfl, fun _ => rfl⟩
  | some slot =>
    dsimp only
    rw [StateT.run_bind, ScopeTree.run_claim]
    split
    · cases env.analysis.isTypedJoin node with
      | true =>
        have hstart : (declaring slot (env.typeName left.1.ty ++ space)).start =
            Start.typeName env left.1.ty :=
          start_typeName env left.1.ty rfl
        refine ⟨hstart, fun hnothing => ?_⟩
        exact absurd (hstart.symm.trans hnothing) (Start.or_other_ne_nothing _)
      | false => exact ⟨rfl, nofun⟩
    · exact ⟨rfl, fun _ => rfl⟩

theorem starts_assignment (node : Nat) (op : BinaryOp) (right : Child) (ty : TypeRef) :
    StartsAs declared (assignment env node op left right ty)
      (Start.assignment env declared node (left.1, s)) := by
  obtain ⟨hstart, hsame⟩ := run_declaringAtoms env node left declared
  refine .next ?_
  unfold Start.assignment
  rw [← hstart]
  generalize (declaringAtoms env node left).run declared = r at hsame
  have htarget : GivesFrom r.2 (value left) fun d => r.1.start = .nothing → d.atoms.start = s := by
    intro hnothing
    rw [hsame hnothing]
    exact h
  refine htarget.bind fun target htarget => ?_
  have hlead {as : Atoms} (has : as.start = .other) :
      (r.1 ++ target.atoms ++ as).start = r.1.start.or (s.or .other) := by
    rw [start_append, start_append, has]
    -- a declaration hides how the target begins, and without one the target sees what was declared
    cases hr : r.1.start with
    | nothing => rw [htarget hr, Start.nothing_or, Start.nothing_or]
    | sign isMinus => rfl
    | other => rfl
  dsimp only
  split
  · refine .after fun inner => .pure ?_
    dsimp only
    rw [List.append_assoc _ _ inner.atoms]
    exact hlead rfl
  · split
    · refine .after fun inner => .pure ?_
      dsimp only
      rw [List.append_assoc _ _ (checkedAtoms inner)]
      exact hlead rfl
    · refine .after fun value => .pure ?_
      dsimp only
      rw [List.append_assoc _ space value.atoms, List.append_assoc, List.append_assoc]
      exact hlead rfl

end Operators

theorem starts_signed (isMinus : Bool) (c : Child) :
    Gives (signed isMinus c) fun as => as.start = .sign isMinus := by
  unfold signed
  dsimp only
  split <;> exact .after fun _ => .pure (by cases isMinus <;> rfl)

theorem starts_unary {declared : List Slot} {f : Expr → Start} (op : UnaryOp) {operand? : Option Child}
    (h : ∀ c ∈ operand?, StartsAs declared (value c) (f c.1)) (ty : TypeRef)
    (method : Option MethodInfo) :
    StartsAs declared (unary env op operand? ty method)
      (Start.unary env op (operand?.map fun c => (c.1, f c.1)) ty method) := by
  cases operand? with
  | none => exact .pure rfl
  | some c =>
    have hc := h c rfl
    unfold unary Start.unary
    dsimp only [Option.map_some]
    generalize method.filter (!·.isOperator) = called
    cases called with
    | some m => exact (starts_staticCall env _ _ _ _ _).from declared
    | none =>
      cases op with
      | negate | unaryPlus =>
        exact Gives.from ((starts_signed _ c).bind fun as has => .pure has) declared
      | negateChecked | onesComplement | isFalse | preIncrementAssign | preDecrementAssign | throw =>
        exact .after fun _ => .pure rfl
      | not => exact .after fun _ => .pure (by cases ty.isBool <;> rfl)
      | isTrue => exact hc
      | increment | decrement | postIncrementAssign | postDecrementAssign | arrayLength | typeAs =>
        refine starts_followed hc _ fun d => .pure ?_
        simp only [List.append_assoc]
        exact start_followed _ rfl
      | convert | convertChecked | unbox =>
        dsimp only
        split
        · exact hc
        · exact .after fun _ => .pure rfl
      | quote =>
        refine hc.bind fun d hd => .pure ?_
        dsimp only
        unfold Atoms.when
        split
        · rfl
        · exact hd

theorem starts_typeTest {declared : List Slot} {c : Child} {s : Start}
    (h : StartsAs declared (value c) s) (tested : TypeRef) (exact : Bool) :
    StartsAs declared (typeTest env c tested exact)
      ((Start.operand (c.1, s) (if exact then Level.primary else Level.relational)).or .other) := by
  unfold typeTest
  cases exact with
  | true | false =>
    refine starts_followed h _ fun d => .pure ?_
    simp only [List.append_assoc]
    exact start_followed _ rfl

theorem starts_ternary {declared : List Slot} {test : Child} {s : Start}
    (h : StartsAs declared (value test) s) (ifTrue ifFalse : Child) (ty : TypeRef) :
    StartsAs declared (ternary test ifTrue ifFalse ty)
      ((Start.operand (test.1, s) Level.coalesce).or .other) := by
  refine starts_followed h _ fun d => .after fun _ => .after fun _ => .pure (start_followed _ ?_)
  split <;> rfl

end Render

end TreeScribe
