import TreeScribe.Proofs.Render.Arrangement.Marks

/-! The pieces of operators, literals and extensions. -/
namespace TreeScribe

namespace Render

open Arrangement

variable (env : Env)

/-! ### Operators -/

theorem adds_staticCall (kind : NodeKind) (declaring : TypeRef) (name : String) (ty : TypeRef)
    (es : List Expr) :
    Adds env Doc.marks (staticCall env kind declaring name ty (es.map env.child)) []
      (Arrangement.values es) :=
  (adds_values env es).last fun ds => by simp [Doc.marks, Env.typeName]

theorem adds_logicalOperand (op : BinaryOp) (e : Expr) :
    Adds env Doc.marks (logicalOperand op (env.child e)) [] [Arrangement.value e] := by
  unfold logicalOperand
  split
  · split
    · exact adds_value env e
    · split
      · exact (adds_value env e).last fun d => by simp
      · exact adds_operand env e _
  · exact adds_operand env e _

theorem adds_operands (op : BinaryOp) (l r : Expr) :
    Adds env (fun ds => ds.1.marks ++ ds.2.marks) (operands op (env.child l) (env.child r)) []
      (Arrangement.values [l, r]) := by
  have hpair {x y : Rendering Doc} (hx : Adds env Doc.marks x [] [Arrangement.value l])
      (hy : Adds env Doc.marks y [] [Arrangement.value r]) :
      Adds env (fun ds => ds.1.marks ++ ds.2.marks) (do return (← x, ← y)) []
        (Arrangement.values [l, r]) :=
    hx.cons fun d => hy.last fun d' => rfl
  unfold operands
  split
  · exact hpair (adds_logicalOperand env op l) (adds_logicalOperand env op r)
  · split
    · exact hpair (adds_operand env l _) (adds_operand env r _)
    · exact hpair (adds_operand env l _) (adds_operand env r _)

theorem adds_operation (op : BinaryOp) (l r : Expr) (ty : TypeRef) :
    Adds env Doc.marks (operation op (env.child l) (env.child r) ty) []
      (Arrangement.values [l, r]) := by
  refine (adds_operands env op l r).last fun ds => ?_
  unfold Doc.marks
  split <;> simp

theorem adds_binary (op : BinaryOp) (l r : Expr) (ty : TypeRef) (method : Option MethodInfo) :
    Adds env Doc.marks (binary env op (env.child l) (env.child r) ty method) []
      (Arrangement.values [l, r]) := by
  unfold binary
  split
  · exact adds_staticCall env _ _ _ _ [l, r]
  · split
    · exact adds_staticCall env _ _ _ _ [l, r]
    · split
      · exact (adds_operand env l _).cons fun d => (adds_value env r).last fun d' => by
          simp [Doc.marks]
      · split
        · exact (adds_operation env op l r ty).last fun d => by simp [Doc.marks, checkedAtoms]
        · exact adds_operation env op l r ty

theorem adds_assignment (node : Nat) (op : BinaryOp) (l r : Expr) (ty : TypeRef) :
    Adds env Doc.marks (assignment env node op (env.child l) (env.child r) ty) []
      (Arrangement.assignment node op l r) := by
  have hdeclaring : Adds env Atoms.marks (declaringAtoms env node (env.child l)) []
      [.one (.assignment node l)] := by
    intro declared
    rw [env.marksOf_one]
    exact ⟨rfl, rfl⟩
  unfold assignment Arrangement.assignment
  dsimp only
  refine hdeclaring.cons fun declaring => ?_
  by_cases hpower : (op == .powerAssign) = true
  · simp only [hpower, Bool.true_or, if_true]
    refine (adds_value env l).cons fun target => ?_
    exact (adds_staticCall env _ _ _ _ [l, r]).last fun d => by simp [Doc.marks]
  · simp only [hpower, Bool.false_or]
    cases hchecked : op.checkedOperator? with
    | some plain =>
      refine (adds_value env l).cons fun target => ?_
      exact (adds_operation env plain l r ty).last fun d => by simp [Doc.marks, checkedAtoms]
    | none =>
      refine (adds_value env l).cons fun target => ?_
      exact (adds_value env r).last fun d => by simp [Doc.marks]

theorem adds_signed (isMinus : Bool) (e : Expr) :
    Adds env Atoms.marks (signed isMinus (env.child e)) [] [Arrangement.value e] := by
  unfold signed
  dsimp only
  split
  · exact (adds_value env e).last fun d => by simp [Doc.marks, Doc.parenthesized]
  · exact (adds_operand env e _).last fun d => by simp [Doc.marks]

theorem adds_unary (op : UnaryOp) (operand? : Option Expr) (ty : TypeRef)
    (method : Option MethodInfo) :
    Adds env Doc.marks (unary env op (operand?.map env.child) ty method) []
      (Arrangement.values operand?.toList) := by
  cases operand? with
  | none => exact .pure (by simp [Doc.marks])
  | some e =>
    show Adds env Doc.marks (unary env op (some (env.child e)) ty method) [] [Arrangement.value e]
    unfold unary
    dsimp only
    split
    · exact adds_staticCall env _ _ _ _ [e]
    · cases op with
      | negate | unaryPlus => exact (adds_signed env _ e).last fun as => by simp [Doc.marks]
      | negateChecked =>
        exact (adds_signed env _ e).last fun as => by simp [Doc.marks, checkedAtoms]
      | isTrue => exact adds_value env e
      | convert | convertChecked | unbox =>
        dsimp only
        split
        · exact adds_value env e
        · exact (adds_operand env e _).last fun d => by simp [Doc.marks, Env.typeName]
      | quote =>
        refine (adds_value env e).last fun d => ?_
        simp [Doc.marks]
      | throw =>
        refine (adds_value env e).last fun d => ?_
        show Atoms.marks ([Atom.operator Level.lambda .control "throw"] ++ Atoms.space ++ d.atoms) = _
        rw [Atoms.marks_append, Atoms.marks_append]
        rfl
      | _ => exact (adds_operand env e _).last fun d => by simp [Doc.marks, Env.typeName]

theorem adds_typeTest (e : Expr) (tested : TypeRef) (exact : Bool) :
    Adds env Doc.marks (typeTest env (env.child e) tested exact) [] [Arrangement.value e] := by
  unfold typeTest
  split
  · exact (adds_operand env e _).last fun d => by simp [Doc.marks, Env.typeName]
  · exact (adds_operand env e _).last fun d => by simp [Doc.marks, Env.typeName]

theorem adds_ternary (test ifTrue ifFalse : Expr) (ty : TypeRef) :
    Adds env Doc.marks (ternary (env.child test) (env.child ifTrue) (env.child ifFalse) ty) []
      (Arrangement.values [test, ifTrue, ifFalse]) := by
  refine (adds_operand env test _).cons fun d => (adds_operand env ifTrue _).cons fun d' => ?_
  refine (adds_operand env ifFalse _).last fun d'' => ?_
  unfold Doc.marks
  dsimp only
  split <;> simp

/-! ### Literals and extensions -/

theorem marks_realLiteral (x : Number.Binary64) (ty : TypeRef) :
    (realLiteral env x ty).marks = [] := by
  unfold realLiteral
  dsimp only
  split
  · simp
  · split <;> simp [Env.typeName]

theorem marks_literal (v : ConstantValue) (ty : TypeRef) : (literal env v ty).marks = [] := by
  unfold literal Doc.marks literalAtoms
  cases v <;> simp [Env.typeName, marks_realLiteral]

theorem marks_commentLines (lines : List (List Char)) : (commentLines lines).marks = [] := by
  induction lines with
  | nil => rfl
  | cons line lines ih =>
    cases lines with
    | nil => simp [commentLines]
    | cons line' lines => simpa [commentLines] using ih

theorem adds_extension (name : String) (ty : TypeRef) (display : Option String) (es : List Expr) :
    Adds env Doc.marks (extension name ty display (es.map env.child)) []
      (if display.isSome then [] else Arrangement.values es) := by
  unfold extension
  cases display with
  | some display => exact .pure (by simp [Doc.marks])
  | none =>
    dsimp only
    split
    next hempty =>
      rw [List.isEmpty_map, List.isEmpty_iff] at hempty
      rw [hempty]
      exact .pure (by simp [Doc.marks])
    · exact (adds_values env es).last fun ds => by simp [Doc.marks]

end Render

end TreeScribe
