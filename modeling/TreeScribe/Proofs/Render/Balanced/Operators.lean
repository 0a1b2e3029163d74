import TreeScribe.Proofs.Render.Balanced.Basic

/-! The brackets of operators and literals are closed. -/
namespace TreeScribe

open Render Atoms

namespace Render

variable {env : Env} (henv : env.IsPlain)

include henv

/-! ### Operators -/

section Operators

variable {left right : Child} (hl : BalancedChild left) (hr : BalancedChild right)

theorem balanced_staticCall (kind : NodeKind) {declaring : TypeRef} (hdeclaring : AllPlain declaring.texts)
    {name : String} (hname : IsPlain name) (ty : TypeRef) {args : List Child}
    (h : ∀ c ∈ args, BalancedChild c) :
    Gives (staticCall env kind declaring name ty args) Doc.IsBalanced := by
  refine (balanced_values h).bind fun ds hds => .pure ?_
  grind -linarith

omit henv in
theorem balanced_logicalOperand (op : BinaryOp) {c : Child} (h : BalancedChild c) :
    Gives (logicalOperand op c) Doc.IsBalanced := by
  unfold logicalOperand
  split
  · split
    · exact balanced_value h
    · split
      · exact (balanced_value h).bind fun d hd => .pure hd.parenthesized
      · exact balanced_operand h _
  · exact balanced_operand h _

omit henv in
@[grind ←] theorem isPlain_symbol (op : BinaryOp) : IsPlain op.symbol := by
  cases op <;> decide

include hl hr

omit henv in
theorem balanced_operands (op : BinaryOp) :
    Gives (operands op left right) fun ds => ds.1.IsBalanced ∧ ds.2.IsBalanced := by
  unfold operands
  split
  · exact (balanced_logicalOperand op hl).bind fun d hd =>
      (balanced_logicalOperand op hr).bind fun d' hd' => .pure ⟨hd, hd'⟩
  · split <;>
      exact (balanced_operand hl _).bind fun d hd =>
        (balanced_operand hr _).bind fun d' hd' => .pure ⟨hd, hd'⟩

omit henv in
theorem balanced_operation (op : BinaryOp) (ty : TypeRef) :
    Gives (operation op left right ty) Doc.IsBalanced := by
  refine (balanced_operands hl hr op).bind fun ds hds => .pure ?_
  have hsymbol := isPlain_symbol op
  grind -linarith

theorem balanced_power (ty : TypeRef) : Gives (power env left right ty) Doc.IsBalanced :=
  balanced_staticCall henv _ (by decide) (by decide) ty (by simp [hl, hr])

theorem balanced_binary (op : BinaryOp) (ty : TypeRef) {method : Option MethodInfo}
    (hmethod : ∀ m ∈ method, AllPlain m.texts) :
    Gives (binary env op left right ty method) Doc.IsBalanced := by
  unfold binary
  split
  next m hm =>
    have hm := hmethod m (Option.filter_eq_some_iff.mp hm).1
    exact balanced_staticCall henv _ (by grind -linarith [MethodInfo.texts]) (by grind -linarith [MethodInfo.texts]) ty
      (by simp [hl, hr])
  · split
    · exact balanced_power henv hl hr ty
    · split
      · exact (balanced_operand hl _).bind fun d hd => (balanced_value hr).bind fun d' hd' =>
          .pure (.append hd (.brackets hd'))
      · split
        · exact (balanced_operation hl hr op ty).bind fun d hd =>
            .pure (.append (.keyword (by decide)) (.parens hd))
        · exact balanced_operation hl hr op ty

omit hr in
theorem balanced_declaringAtoms (node : Nat) : Gives (declaringAtoms env node left) Balanced := by
  have hname := balanced_typeName henv hl.ty
  unfold declaringAtoms
  split
  · exact .pure .nil
  · refine .after fun declares => ?_
    split
    · split
      · exact .pure (by grind -linarith)
      · exact .pure (by grind -linarith)
    · exact .pure .nil

theorem balanced_assignment (node : Nat) (op : BinaryOp) (ty : TypeRef) :
    Gives (assignment env node op left right ty) Doc.IsBalanced := by
  refine (balanced_declaringAtoms henv hl node).bind fun declaring hdeclaring => ?_
  refine (balanced_value hl).bind fun target htarget => ?_
  dsimp only
  split
  · exact (balanced_power henv hl hr ty).bind fun inner hinner => .pure (by grind -linarith)
  · split
    · exact (balanced_operation hl hr _ ty).bind fun inner hinner => .pure (by grind -linarith [checkedAtoms])
    · refine (balanced_value hr).bind fun d hd => .pure ?_
      have hsymbol := isPlain_symbol op
      grind -linarith

end Operators

omit henv in
theorem balanced_signed (isMinus : Bool) {c : Child} (h : BalancedChild c) :
    Gives (signed isMinus c) Balanced := by
  have hsign : Balanced (operator Level.unary (if isMinus then "-" else "+")) :=
    .operator _ (by cases isMinus <;> decide)
  unfold signed
  dsimp only
  split
  · exact (balanced_value h).bind fun d hd => .pure (.append hsign hd.parenthesized)
  · exact (balanced_operand h _).bind fun d hd => .pure (.append hsign hd)

theorem balanced_unary (op : UnaryOp) {operand? : Option Child} {ty : TypeRef} {method : Option MethodInfo}
    (h : ∀ c ∈ operand?, BalancedChild c) (hty : AllPlain ty.texts)
    (hmethod : ∀ m ∈ method, AllPlain m.texts) :
    Gives (unary env op operand? ty method) Doc.IsBalanced := by
  cases operand? with
  | none =>
    have hthrow : Balanced (control "throw") := .control (by decide)
    exact .pure hthrow
  | some c =>
    have hc : BalancedChild c := h c rfl
    have hoperand := balanced_operand hc
    have hname := balanced_typeName henv hty
    unfold unary
    dsimp only
    split
    next m hm =>
      have hm := hmethod m (Option.filter_eq_some_iff.mp hm).1
      exact balanced_staticCall henv _ (by grind -linarith [MethodInfo.texts]) (by grind -linarith [MethodInfo.texts]) ty
        (by simp [hc])
    · cases op with
      | negate | unaryPlus =>
        exact (balanced_signed _ hc).bind fun as has => .pure has
      | negateChecked =>
        exact (balanced_signed _ hc).bind fun as has => .pure (.append (.keyword (by decide)) (.parens has))
      | isTrue => exact balanced_value hc
      | not =>
        have hsign : IsPlain (if ty.isBool then "!" else "~") := by
          split <;> decide
        exact (hoperand _).bind fun d hd => .pure (.append (.operator _ hsign) hd)
      | onesComplement | isFalse | preIncrementAssign | preDecrementAssign =>
        exact (hoperand _).bind fun d hd => .pure (.append (.operator _ (by decide)) hd)
      | increment | decrement =>
        exact (hoperand _).bind fun d hd => .pure (by grind -linarith)
      | postIncrementAssign | postDecrementAssign | arrayLength =>
        exact (hoperand _).bind fun d hd => .pure (.append hd (.text (by decide)))
      | convert | convertChecked | unbox =>
        dsimp only
        split
        · exact balanced_value hc
        · exact (hoperand _).bind fun d hd => .pure (.append (.cast _ hname) hd)
      | typeAs => exact (hoperand _).bind fun d hd => .pure (by grind -linarith)
      | quote | throw => exact (balanced_value hc).bind fun d hd => .pure (by grind -linarith)

theorem balanced_typeTest {c : Child} (h : BalancedChild c) {tested : TypeRef}
    (htested : AllPlain tested.texts) (exact : Bool) :
    Gives (typeTest env c tested exact) Doc.IsBalanced := by
  have hname := balanced_typeName henv htested
  have hempty : Balanced (text "()") := .nestedText rfl
  unfold typeTest
  split <;> exact (balanced_operand h _).bind fun d hd => .pure (by grind -linarith)

/-! ### Literals -/

omit henv in
/-- Digits with a point between them or zeros around them. -/
theorem isPlain_positionalText {digits : String} (h : IsPlain digits) (point : Int) :
    IsPlain (numberStyle.positionalText digits point) := by
  have hzeros (n : Nat) : IsPlain (Number.Style.zeros n) := by
    intro c hc
    rw [Number.Style.zeros, String.toList_ofList] at hc
    rw [(List.mem_replicate.mp hc).2]
    rfl
  have hpart {cs : List Char} (hcs : cs ⊆ digits.toList) : IsPlain (String.ofList cs) :=
    h.of_subset (by rwa [String.toList_ofList])
  unfold Number.Style.positionalText
  dsimp only
  split
  · exact (IsPlain.append (by decide) (hzeros _)).append h
  · split
    · exact (h.append (hzeros _)).append (by decide)
    · exact ((hpart (List.take_subset ..)).append (by decide)).append (hpart (List.drop_subset ..))

omit henv in
theorem isPlain_numeral {x : Number.Binary64} {digits : String} (h : numberStyle.text? x = some digits) :
    IsPlain digits := by
  cases x with
  | finite negative m e =>
    have hsign : IsPlain (if negative then "-" else "") := by
      split <;> decide
    have hmagnitude : IsPlain (numberStyle.magnitudeText m e) := by
      unfold Number.Style.magnitudeText
      split
      · decide
      · exact isPlain_positionalText (isPlain_nat _) _
    obtain rfl : _ = digits := Option.some.inj h
    exact hsign.append hmagnitude
  | _ => cases h

omit henv in
theorem isPlain_integerSuffix (ty : TypeRef) (isSigned : Bool) : IsPlain (integerSuffix ty isSigned) := by
  unfold integerSuffix
  split
  · split <;> decide
  · split
    · decide
    · split <;> decide

theorem balanced_realLiteral (x : Number.Binary64) {ty : TypeRef} (hty : AllPlain ty.texts) :
    Balanced (realLiteral env x ty) := by
  have hmember {name : String} (h : IsPlain name) : Balanced (env.typeName ty ++ text "." ++ text name) :=
    .append (.append (balanced_typeName henv hty) (.text (by decide))) (.text h)
  unfold realLiteral
  dsimp only
  split
  next digits hdigits =>
    refine .token _ ((isPlain_numeral hdigits).append ?_)
    split
    · decide
    · split <;> decide
  · split
    · exact hmember (by decide)
    · exact hmember (by split <;> decide)

theorem balanced_literal {v : ConstantValue} (hv : AllPlain v.texts) {ty : TypeRef} (hty : AllPlain ty.texts) :
    (literal env v ty).IsBalanced := by
  have hname := balanced_typeName henv hty
  show Balanced (literalAtoms env v ty)
  cases v with
  | null => exact .keyword (by decide)
  | bool b => exact .keyword (by cases b <;> decide)
  | int n => exact .token _ ((isPlain_int n).append (isPlain_integerSuffix ty _))
  | uint n => exact .token _ ((isPlain_nat n).append (isPlain_integerSuffix ty _))
  | float x => exact balanced_realLiteral henv x hty
  | decimal digits =>
    exact .token _ ((allPlain_cons.mp hv).1.append (by decide))
  | char | string => exact .literal _
  | type t => exact .append (.keyword (by decide)) (.parens (balanced_typeName henv hv))
  | enumMember name => exact .append (.append hname (.text (by decide))) (.text (allPlain_cons.mp hv).1)
  | closure fields => exact hname
  | object display => exact .text (allPlain_cons.mp hv).1

theorem balanced_defaultValue {ty : TypeRef} (hty : AllPlain ty.texts) : (defaultValue env ty).IsBalanced := by
  unfold defaultValue
  split
  · exact .absent _ _
  · exact .append (.keyword (by decide)) (.parens (balanced_typeName henv hty))

omit henv in
theorem balanced_commentLines (lines : List (List Char)) : Balanced (commentLines lines) := by
  induction lines with
  | nil => exact .nil
  | cons line lines ih =>
    cases lines with
    | nil => exact .comment _
    | cons line' lines => exact .append (.append (.comment _) .newline) ih

omit henv in
theorem balanced_extension {name : String} (hname : IsPlain name) (ty : TypeRef) {display : Option String}
    (hdisplay : ∀ s ∈ display, IsPlain s) {operands : List Child} (h : ∀ c ∈ operands, BalancedChild c) :
    Gives (extension name ty display operands) Doc.IsBalanced := by
  unfold extension
  split
  next s => exact .pure (.text (hdisplay s rfl))
  · split
    · exact .pure (.text hname)
    · exact (balanced_values h).bind fun ds hds => .pure (by grind -linarith)

end Render

end TreeScribe
