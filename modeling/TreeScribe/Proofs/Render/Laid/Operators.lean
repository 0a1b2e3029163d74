import TreeScribe.Proofs.Render.Laid.Basic

/-! Operators and literals are well laid. -/
namespace TreeScribe

open Render Atoms

variable {P : TypeRef → Prop}

namespace Render

variable (env : Env)

/-! ### Operators -/

section Operators

variable {left right : Child} (hl : LaidChild P left) (hr : LaidChild P right)

theorem laid_staticCall (kind : NodeKind) {declaring : TypeRef} (hname : P declaring) (name : String)
    (ty : TypeRef) {args : List Child} (h : ∀ c ∈ args, LaidChild P c) :
    Gives (staticCall env kind declaring name ty args) (Doc.IsLaid P) := by
  refine (laid_values h).bind fun ds hds => .pure ?_
  grind -linarith

theorem laid_logicalOperand (op : BinaryOp) {c : Child} (h : LaidChild P c) :
    Gives (logicalOperand op c) (Doc.IsLaid P) := by
  unfold logicalOperand
  split
  · split
    · exact laid_value h
    · split
      · exact (laid_value h).bind fun d hd => .pure hd.parenthesized
      · exact laid_operand h _
  · exact laid_operand h _

include hl hr

theorem laid_operands (op : BinaryOp) :
    Gives (operands op left right) fun ds => ds.1.IsLaid P ∧ ds.2.IsLaid P := by
  unfold operands
  split
  · exact (laid_logicalOperand op hl).bind fun d hd =>
      (laid_logicalOperand op hr).bind fun d' hd' => .pure ⟨hd, hd'⟩
  · split <;>
      exact (laid_operand hl _).bind fun d hd =>
        (laid_operand hr _).bind fun d' hd' => .pure ⟨hd, hd'⟩

theorem laid_operation (op : BinaryOp) (ty : TypeRef) :
    Gives (operation op left right ty) (Doc.IsLaid P) := by
  refine (laid_operands hl hr op).bind fun ds hds => .pure ?_
  grind -linarith

theorem laid_binary (op : BinaryOp) (ty : TypeRef) {method : Option MethodInfo}
    (hnames : ∀ t ∈ Named.binary op method, P t) :
    Gives (binary env op left right ty method) (Doc.IsLaid P) := by
  have hargs : ∀ c ∈ [left, right], LaidChild P c := by simp [hl, hr]
  unfold Named.binary at hnames
  unfold binary
  split
  next m hm =>
    rw [hm] at hnames
    exact laid_staticCall env _ (hnames _ (List.mem_singleton_self _)) _ _ hargs
  next hm =>
    rw [hm] at hnames
    split
    next hpower =>
      rw [if_pos hpower] at hnames
      exact laid_staticCall env _ (hnames _ (List.mem_singleton_self _)) _ _ hargs
    · split
      · exact (laid_operand hl _).bind fun d hd => (laid_value hr).bind fun d' hd' =>
          .pure (.append hd (.bracketed _ _ hd'))
      · split
        · exact (laid_operation hl hr op ty).bind fun d hd =>
            .pure (.append (.keyword _) (.parens hd))
        · exact laid_operation hl hr op ty

omit hl hr in
theorem laid_declaringAtoms {node : Nat} (hnames : ∀ t ∈ Named.join env node left.1.ty, P t) :
    Gives (declaringAtoms env node left) (Laid P) := by
  unfold declaringAtoms
  split
  · exact .pure .nil
  next slot hslot =>
    refine (gives_claim slot _).bind fun declares hdeclares => ?_
    split
    next hdeclared =>
      split
      next htyped =>
        have hjoin : left.1.ty ∈ Named.join env node left.1.ty := by
          unfold Named.join
          rw [hslot, Option.any_some, htyped, hdeclares hdeclared]
          exact List.mem_singleton_self _
        have hname := hnames _ hjoin
        exact .pure (by grind -linarith)
      · exact .pure (by grind -linarith)
    · exact .pure .nil

theorem laid_assignment {node : Nat} {op : BinaryOp} (ty : TypeRef)
    (hjoin : ∀ t ∈ Named.join env node left.1.ty, P t) (hmath : op = .powerAssign → P .math) :
    Gives (assignment env node op left right ty) (Doc.IsLaid P) := by
  refine (laid_declaringAtoms env hjoin).bind fun declaring hdeclaring => ?_
  refine (laid_value hl).bind fun target htarget => ?_
  dsimp only
  split
  next hpower =>
    have hargs : ∀ c ∈ [left, right], LaidChild P c := by simp [hl, hr]
    have hmath := hmath (eq_of_beq hpower)
    refine (laid_staticCall env _ hmath _ _ hargs).bind fun inner hinner => .pure ?_
    grind -linarith
  · split
    · refine (laid_operation hl hr _ ty).bind fun inner hinner => .pure ?_
      grind -linarith [checkedAtoms]
    · refine (laid_value hr).bind fun d hd => .pure ?_
      grind -linarith

end Operators

theorem laid_signed (isMinus : Bool) {c : Child} (h : LaidChild P c) :
    Gives (signed isMinus c) (Laid P) := by
  unfold signed
  dsimp only
  split
  · exact (laid_value h).bind fun d hd => .pure (.append (.operator _ _) hd.parenthesized)
  · exact (laid_operand h _).bind fun d hd => .pure (.append (.operator _ _) hd)

theorem laid_unary (op : UnaryOp) {operand? : Option Child} {ty : TypeRef}
    {method : Option MethodInfo} (h : ∀ c ∈ operand?, LaidChild P c)
    (hnames : ∀ t ∈ Named.unary op (operand?.map (·.1)) ty method, P t) :
    Gives (unary env op operand? ty method) (Doc.IsLaid P) := by
  cases operand? with
  | none => exact .pure (Laid.control "throw" :)
  | some c =>
    have hc : LaidChild P c := h c rfl
    have hoperand := laid_operand hc
    unfold Named.unary at hnames
    unfold unary
    dsimp only
    split
    next m hm =>
      rw [hm] at hnames
      exact laid_staticCall env _ (hnames _ (List.mem_singleton_self _)) _ _ (by simp [hc])
    next hm =>
      rw [hm] at hnames
      cases op with
      | negate | unaryPlus =>
        exact (laid_signed _ hc).bind fun as has => .pure has
      | negateChecked =>
        exact (laid_signed _ hc).bind fun as has => .pure (.append (.keyword _) (.parens has))
      | isTrue => exact laid_value hc
      | not | onesComplement | isFalse | preIncrementAssign | preDecrementAssign =>
        exact (hoperand _).bind fun d hd => .pure (.append (.operator _ _) hd)
      | increment | decrement =>
        exact (hoperand _).bind fun d hd => .pure (by grind -linarith)
      | postIncrementAssign | postDecrementAssign | arrayLength =>
        exact (hoperand _).bind fun d hd => .pure (.append hd (.text _))
      | convert | convertChecked | unbox =>
        dsimp only
        split
        · exact laid_value hc
        next hty =>
          have hname : P ty := hnames ty (by simp [UnaryOp.isConversion, hty])
          exact (hoperand _).bind fun d hd => .pure (by grind -linarith)
      | typeAs =>
        have hname : P ty := hnames ty (by simp)
        exact (hoperand _).bind fun d hd => .pure (by grind -linarith)
      | quote | throw => exact (laid_value hc).bind fun d hd => .pure (by grind -linarith)

theorem laid_typeTest {c : Child} (h : LaidChild P c) {tested : TypeRef} (hname : P tested)
    (exact : Bool) :
    Gives (typeTest env c tested exact) (Doc.IsLaid P) := by
  unfold typeTest
  split <;> exact (laid_operand h _).bind fun d hd => .pure (by grind -linarith)

/-! ### Literals -/

theorem laid_realLiteral {x : Number.Binary64} {ty : TypeRef}
    (hname : numberStyle.text? x = none → P ty) : Laid P (realLiteral env x ty) := by
  unfold realLiteral
  dsimp only
  split
  · exact .token _ _
  next hnone =>
    have hname := hname hnone
    split <;> grind -linarith

theorem laid_literal {v : ConstantValue} {ty : TypeRef} (hnames : ∀ t ∈ Named.literal v ty, P t) :
    (literal env v ty).IsLaid P := by
  show Laid P (literalAtoms env v ty)
  cases v with
  | float x => exact laid_realLiteral env fun hnone => hnames ty (by simp [Named.literal, hnone])
  | type t =>
    have hname : P t := hnames t (List.mem_singleton_self t)
    exact .append (.keyword _) (.parens (laid_typeName env hname))
  | enumMember name | closure fields =>
    have hname : P ty := hnames ty (List.mem_singleton_self ty)
    unfold literalAtoms
    grind -linarith
  | _ =>
    unfold literalAtoms
    grind -linarith

theorem laid_defaultValue {ty : TypeRef} (hname : ty.isVoid = false → P ty) :
    (defaultValue env ty).IsLaid P := by
  unfold defaultValue
  split
  · exact .absent _ _
  next hvoid =>
    exact .append (.keyword _) (.parens (laid_typeName env (hname (Bool.not_eq_true _ ▸ hvoid))))

theorem laid_commentLines (lines : List (List Char)) : Laid P (commentLines lines) := by
  induction lines with
  | nil => exact .nil
  | cons line lines ih =>
    cases lines with
    | nil => exact .token _ _
    | cons line' lines => exact .append (.append (.token _ _) .newline) ih

theorem laid_extension (name : String) (ty : TypeRef) (display : Option String)
    {operands : List Child} (h : ∀ c ∈ operands, LaidChild P c) :
    Gives (extension name ty display operands) (Doc.IsLaid P) := by
  unfold extension
  split
  · exact .pure (.text _)
  · split
    · exact .pure (.text _)
    · exact (laid_values h).bind fun ds hds =>
        .pure (.append (.text _) (.parens (Doc.laid_separated _ hds)))

end Render

end TreeScribe
