import TreeScribe.Proofs.Render.Operand.Basic

/-! The operators that operations leave outside all brackets. -/
namespace TreeScribe

open Render Atoms

namespace Render

variable (env : Env)

variable {s : Settings} {c : Child}

theorem filter_of_callsMethod {method : Option MethodInfo} (h : Node.callsMethod method = true) :
    ∃ m, method.filter (!·.isOperator) = some m := by
  cases method with
  | none => cases h
  | some m => exact ⟨m, by simpa [Option.filter, Node.callsMethod] using h⟩

theorem filter_of_not_callsMethod {method : Option MethodInfo}
    (h : ¬Node.callsMethod method = true) : method.filter (!·.isOperator) = none := by
  cases method with
  | none => rfl
  | some m => simpa [Option.filter, Node.callsMethod] using h

theorem tops_declaringAtoms (node : Nat) (left : Child) :
    Gives (declaringAtoms env node left) fun as => WellLaid as ∧ Atoms.top as = ∅ := by
  refine (laid_declaringAtoms env fun _ _ => trivial).and ?_
  unfold declaringAtoms
  split
  · exact .pure top_nil
  · refine .after fun declares => ?_
    split
    · split
      · exact .pure (by simp (disch := grind -linarith) [Env.typeName])
      · exact .pure (by simp (disch := grind -linarith))
    · exact .pure top_nil

section Operators

variable {left right : Child} (hl : ShownChild s left) (hr : ShownChild s right)

include hl hr

theorem tops_operands (op : BinaryOp) :
    Gives (operands op left right) fun ds =>
      ∃ ls rs : Surface, Surface.operation op left.1 right.1 = ls ++ [Part.sign op.level] ++ rs ∧
        ds.1.Tops (ls.shown s) ∧ ds.2.Tops (rs.shown s) := by
  unfold operands Surface.operation
  dsimp only
  split
  · exact (tops_logicalOperand op hl).bind fun l hl' => (tops_logicalOperand op hr).bind
      fun r hr' => .pure ⟨_, _, rfl, hl', hr'⟩
  · split
    · exact (tops_operand hl _).bind fun l hl' => (tops_operand hr _).bind
        fun r hr' => .pure ⟨_, _, rfl, hl', hr'⟩
    · exact (tops_operand hl _).bind fun l hl' => (tops_operand hr _).bind
        fun r hr' => .pure ⟨_, _, rfl, hl', hr'⟩

theorem top_operation (op : BinaryOp) (ty : TypeRef) :
    Gives (operation op left right ty) fun d =>
      Atoms.top d.atoms = (Surface.operation op left.1 right.1).shown s := by
  refine (tops_operands hl hr op).bind fun ds hds => .pure ?_
  obtain ⟨ls, rs, hsurface, hleft, hright⟩ := hds
  have hleftLaid := hleft.laid
  have hrest : WellLaid (newline ++ ds.2.atoms) := .append .newline hright.laid
  rw [hsurface]
  dsimp only
  split <;> simp (disch := grind -linarith) [hleft.top, hright.top]

omit hl hr in
theorem top_staticCall (kind : NodeKind) (declaring : TypeRef) (name : String) (ty : TypeRef)
    {args : List Child} (h : ∀ c ∈ args, WellLaidChild c) :
    Gives (staticCall env kind declaring name ty args) fun d => Atoms.top d.atoms = ∅ := by
  refine (laid_values h).bind fun ds hds => .pure ?_
  have hargs := Doc.laid_separated ", " hds
  simp (disch := grind -linarith) [Env.typeName]

theorem top_binary (op : BinaryOp) (ty : TypeRef) (method : Option MethodInfo) :
    Gives (binary env op left right ty method) fun d =>
      Atoms.top d.atoms = (Surface.binary op left.1 right.1 method).shown s := by
  have hargs : ∀ c ∈ [left, right], WellLaidChild c := by simp [hl.laid, hr.laid]
  unfold binary Surface.binary
  by_cases hcalls : Node.callsMethod method = true
  · obtain ⟨m, hm⟩ := filter_of_callsMethod hcalls
    simp only [hm, hcalls, Bool.true_or, if_true, Surface.shown_nil]
    exact top_staticCall env _ _ _ _ hargs
  · simp only [filter_of_not_callsMethod hcalls, hcalls, Bool.false_or]
    split
    · rw [Surface.shown_nil]
      exact top_staticCall env _ _ _ _ hargs
    · split
      · refine (tops_operand hl _).bind fun l hleft => ?_
        refine (tops_value hr).bind fun r hright => .pure ?_
        rw [top_append hleft.laid, top_bracketed hright.laid, Set.union_empty]
        exact hleft.top
      · split
        · refine (laid_operation hl.laid hr.laid op ty).bind fun d hd => .pure ?_
          simp (disch := grind -linarith) [checkedAtoms]
        · exact top_operation hl hr op ty

theorem top_assignment (node : Nat) (op : BinaryOp) (ty : TypeRef) :
    Gives (assignment env node op left right ty) fun d =>
      Atoms.top d.atoms = (Surface.assignment op left.1 right.1).shown s := by
  have hargs : ∀ c ∈ [left, right], WellLaidChild c := by simp [hl.laid, hr.laid]
  unfold Surface.assignment
  refine (tops_declaringAtoms env node left).bind fun declaring hdeclaring => ?_
  refine (tops_value hl).bind fun target htarget => ?_
  have hlaid := htarget.laid
  dsimp only
  split
  next hop =>
    refine ((laid_staticCall env _ trivial _ _ hargs).and (top_staticCall env _ _ _ _ hargs)).bind
      fun inner hinner => .pure ?_
    simp (disch := grind -linarith) [hdeclaring.2, htarget.top, hinner.2, hop]
  next hop =>
    split
    next plain hplain =>
      refine (laid_operation hl.laid hr.laid plain ty).bind fun inner hinner => .pure ?_
      simp (disch := grind -linarith) [hdeclaring.2, htarget.top, checkedAtoms, hplain]
    next hplain =>
      refine (tops_value hr).bind fun d hd => .pure ?_
      simp (disch := grind -linarith) [hdeclaring.2, htarget.top, hd.top, hplain, hop]

end Operators

theorem top_signed (isMinus : Bool) (h : ShownChild s c) :
    Gives (signed isMinus c) fun as =>
      WellLaid as ∧ Atoms.top as = (Surface.signed isMinus c.1).shown s := by
  refine (laid_signed isMinus h.laid).and ?_
  unfold signed Surface.signed
  dsimp only
  split
  · refine (tops_value h).bind fun d hd => .pure ?_
    simp (disch := grind -linarith) [hd.parenthesized.top]
  · refine (tops_operand h _).bind fun d hd => .pure ?_
    simp (disch := grind -linarith) [hd.top]

theorem top_unary (op : UnaryOp) {operand? : Option Child} (ty : TypeRef)
    (method : Option MethodInfo) (h : ∀ c ∈ operand?, ShownChild s c) :
    Gives (unary env op operand? ty method) fun d =>
      Atoms.top d.atoms = (Surface.unary op (operand?.map (·.1)) ty method).shown s := by
  cases operand? with
  | none =>
    refine .pure ?_
    simp [Surface.unary]
  | some c =>
    have hc : ShownChild s c := h c rfl
    have hoperand := tops_operand hc
    unfold unary Surface.unary
    dsimp only [Option.map_some]
    by_cases hcalls : Node.callsMethod method = true
    · obtain ⟨m, hm⟩ := filter_of_callsMethod hcalls
      simp only [hm, hcalls, if_true, Surface.shown_nil]
      exact top_staticCall env _ _ _ _ (by simp [hc.laid])
    · simp only [filter_of_not_callsMethod hcalls, hcalls]
      cases op with
      | negate | unaryPlus => exact (top_signed _ hc).bind fun as has => .pure has.2
      | negateChecked =>
        refine (laid_signed _ hc.laid).bind fun as has => .pure ?_
        simp (disch := grind -linarith) [checkedAtoms]
      | isTrue => simpa using hc.value
      | not | onesComplement | isFalse | preIncrementAssign | preDecrementAssign =>
        refine (hoperand _).bind fun d hd => .pure ?_
        simp (disch := grind -linarith) [hd.top]
      | increment | decrement | postIncrementAssign | postDecrementAssign | arrayLength =>
        refine (hoperand _).bind fun d hd => .pure ?_
        have := hd.laid
        simp (disch := grind -linarith) [hd.top]
      | convert | convertChecked | unbox =>
        dsimp only
        split
        · simpa using hc.value
        · refine (hoperand _).bind fun d hd => .pure ?_
          simp (disch := grind -linarith) [hd.top, Env.typeName]
      | typeAs =>
        refine (hoperand _).bind fun d hd => .pure ?_
        have := hd.laid
        simp (disch := grind -linarith) [hd.top, Env.typeName]
      | quote =>
        refine (tops_value hc).bind fun d hd => .pure ?_
        unfold Atoms.when
        split <;> simp (disch := grind -linarith) [hd.top]
      | throw =>
        refine (tops_value hc).bind fun d hd => .pure ?_
        simp (disch := grind -linarith) [hd.top]

theorem top_typeTest (h : ShownChild s c) (tested : TypeRef) (exact : Bool) :
    Gives (typeTest env c tested exact) fun d =>
      Atoms.top d.atoms = (Surface.typeTest c.1 exact).shown s := by
  unfold typeTest Surface.typeTest
  split
  · refine (tops_operand h _).bind fun d hd => .pure ?_
    have := hd.laid
    simp (disch := grind -linarith) [hd.top, Env.typeName]
  · refine (tops_operand h _).bind fun d hd => .pure ?_
    have := hd.laid
    simp (disch := grind -linarith) [hd.top, Env.typeName]

end Render

end TreeScribe
