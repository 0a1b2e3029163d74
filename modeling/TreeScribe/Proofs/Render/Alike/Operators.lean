import TreeScribe.Proofs.Render.Alike.Basic

/-! Operators of a tree and its twin, its literals and its extensions. -/
namespace TreeScribe

open Atoms Render

namespace Twins

variable {T : Twins} {d d' : Doc}

/-! ### Operators -/

section Operators

variable {e l r : Expr} {es : List Expr}

theorem alike_staticCall (kind : NodeKind) (declaring : TypeRef) (name : String) (ty : TypeRef)
    (h : T.AgreesOn (Arrangement.values es)) :
    Alike T.Part (staticCall T.env kind declaring name ty (es.map T.child))
      (staticCall T.twin kind declaring name ty (es.map T.twinOf)) := by
  refine (alike_values h).last fun ds ds' hds => ⟨⟨rfl, rfl, rfl, rfl, rfl⟩, ?_⟩
  grind

theorem alike_logicalOperand (op : BinaryOp) (h : T.AgreesOn [Arrangement.value e]) :
    Alike T.Part (logicalOperand op (T.child e)) (logicalOperand op (T.twinOf e)) := by
  have hvalue := alike_value h
  have hoperand := alike_operand h (op.level + 1)
  unfold logicalOperand
  rw [Node.form_relabel]
  cases e.form with
  | binary inner left right ty method =>
    dsimp only [Form.map]
    split
    · exact hvalue
    · split
      · exact hvalue.last fun d d' hd => hd.parenthesized
      · exact hoperand
  | _ => exact hoperand

variable (hl : T.AgreesOn [Arrangement.value l]) (hr : T.AgreesOn [Arrangement.value r])
include hl hr

theorem alike_operands (op : BinaryOp) :
    Alike (fun ds ds' => T.Part ds.1 ds'.1 ∧ T.Part ds.2 ds'.2)
      (operands op (T.child l) (T.child r)) (operands op (T.twinOf l) (T.twinOf r)) := by
  have hpair {x x' y y' : Rendering Doc} (hx : Alike T.Part x x') (hy : Alike T.Part y y') :
      Alike (fun ds ds' => T.Part ds.1 ds'.1 ∧ T.Part ds.2 ds'.2) (do return (← x, ← y))
        (do return (← x', ← y')) :=
    hx.bind fun d d' hd => hy.last fun e e' he => ⟨hd, he⟩
  unfold operands
  split
  · exact hpair (alike_logicalOperand op hl) (alike_logicalOperand op hr)
  · split
    · exact hpair (alike_operand hl _) (alike_operand hr _)
    · exact hpair (alike_operand hl _) (alike_operand hr _)

theorem alike_operation (op : BinaryOp) (ty : TypeRef) :
    Alike T.Part (operation op (T.child l) (T.child r) ty)
      (operation op (T.twinOf l) (T.twinOf r) ty) := by
  refine (alike_operands hl hr op).last fun ds ds' hds => ⟨⟨rfl, rfl, rfl, rfl, rfl⟩, ?_⟩
  obtain ⟨hd, hd'⟩ := hds
  dsimp only
  rw [hd.size, hd'.size]
  split <;> grind

theorem agreesOn_pair : T.AgreesOn (Arrangement.values [l, r]) :=
  AgreesOn.cons_iff.mpr ⟨hl, hr⟩

theorem alike_pairCall (kind : NodeKind) (declaring : TypeRef) (name : String) (ty : TypeRef) :
    Alike T.Part (staticCall T.env kind declaring name ty [T.child l, T.child r])
      (staticCall T.twin kind declaring name ty [T.twinOf l, T.twinOf r]) := by
  have hcall := alike_staticCall kind declaring name ty (agreesOn_pair hl hr)
  rwa [List.map_cons, List.map_cons, List.map_nil, List.map_cons, List.map_cons, List.map_nil] at hcall

theorem alike_binary (op : BinaryOp) (ty : TypeRef) (method : Option MethodInfo) :
    Alike T.Part (binary T.env op (T.child l) (T.child r) ty method)
      (binary T.twin op (T.twinOf l) (T.twinOf r) ty method) := by
  unfold binary
  split
  · exact alike_pairCall hl hr _ _ _ ty
  · split
    · exact alike_pairCall hl hr _ _ _ ty
    · split
      · refine (alike_operand hl _).bind fun d d' hd => (alike_value hr).last fun e e' he =>
          ⟨⟨rfl, rfl, rfl, rfl, rfl⟩, ?_⟩
        grind
      · split
        · refine (alike_operation hl hr op ty).last fun d d' hd => ⟨⟨rfl, rfl, rfl, rfl, rfl⟩, ?_⟩
          grind [checkedAtoms]
        · exact alike_operation hl hr op ty

/-- An assignment is what declares its variable, if anything, and then the rest. -/
theorem alike_assignment_lead {lead : Atoms → Atoms → Prop} {node node' : Nat}
    (hlead : Alike lead (declaringAtoms T.env node (T.child l)) (declaringAtoms T.twin node' (T.twinOf l)))
    (op : BinaryOp) (ty : TypeRef) :
    Alike (fun d d' => d.SameSort d' ∧ d.isTerminated = false ∧ ∃ as as' rest rest', lead as as' ∧
        Matches T.base rest rest' ∧ d.atoms = as ++ rest ∧ d'.atoms = as' ++ rest')
      (assignment T.env node op (T.child l) (T.child r) ty)
      (assignment T.twin node' op (T.twinOf l) (T.twinOf r) ty) := by
  refine hlead.bind fun as as' has => (alike_value hl).bind fun target target' htarget => ?_
  dsimp only
  split
  · refine (alike_pairCall hl hr _ _ _ ty).last fun d d' hd => ⟨⟨rfl, rfl, rfl, rfl, rfl⟩, rfl,
      as, as', target.atoms ++ operator op.level " = " ++ d.atoms,
      target'.atoms ++ operator op.level " = " ++ d'.atoms, has, ?_, by simp, by simp⟩
    grind
  · split
    · refine (alike_operation hl hr _ ty).last fun d d' hd => ⟨⟨rfl, rfl, rfl, rfl, rfl⟩, rfl,
        as, as', target.atoms ++ operator op.level " = " ++ checkedAtoms d,
        target'.atoms ++ operator op.level " = " ++ checkedAtoms d', has, ?_, by simp, by simp⟩
      grind [checkedAtoms]
    · refine (alike_value hr).last fun d d' hd => ⟨⟨rfl, rfl, rfl, rfl, rfl⟩, rfl,
        as, as', target.atoms ++ space ++ operator op.level op.symbol ++ space ++ d.atoms,
        target'.atoms ++ space ++ operator op.level op.symbol ++ space ++ d'.atoms, has, ?_,
        by simp, by simp⟩
      grind

omit hl hr

theorem agreesOn_assignment {op : BinaryOp}
    (h : T.AgreesOn (Arrangement.values
      (if op == .powerAssign || op.checkedOperator?.isSome then [l, l, r] else [l, r]))) :
    T.AgreesOn [Arrangement.value l] ∧ T.AgreesOn [Arrangement.value r] := by
  refine ⟨h.values ?_, h.values ?_⟩ <;> split <;> simp

theorem alike_assignment {node : Nat} (op : BinaryOp) (ty : TypeRef)
    (h : T.AgreesOn (Arrangement.assignment node op l r)) :
    Alike T.Part (assignment T.env node op (T.child l) (T.child r) ty)
      (assignment T.twin (T.label node) op (T.twinOf l) (T.twinOf r) ty) := by
  obtain ⟨hlead, hboth⟩ := AgreesOn.cons_iff.mp h
  obtain ⟨hl, hr⟩ := agreesOn_assignment hboth
  refine (alike_assignment_lead hl hr hlead.one op ty).mono ?_
  rintro d d' ⟨hsort, -, as, as', rest, rest', has, hrest, heq, heq'⟩
  refine ⟨hsort, ?_⟩
  rw [heq, heq']
  exact .append has hrest

theorem alike_signed (isMinus : Bool) (h : T.AgreesOn [Arrangement.value e]) :
    Alike (Matches T.base) (signed isMinus (T.child e)) (signed isMinus (T.twinOf e)) := by
  unfold signed
  rw [startsWithSign_relabel]
  dsimp only
  split
  · exact (alike_value h).last fun d d' hd => .append (.operator _ _) hd.parenthesized.atoms
  · exact (alike_operand h _).last fun d d' hd => .append (.operator _ _) hd.atoms

theorem alike_unary (op : UnaryOp) (operand? : Option Expr) (ty : TypeRef)
    (method : Option MethodInfo) (h : T.AgreesOn (Arrangement.values operand?.toList)) :
    Alike T.Part (unary T.env op (operand?.map T.child) ty method)
      (unary T.twin op (operand?.map T.twinOf) ty method) := by
  have hdoc {as bs : Atoms} (jumps : Bool) (has : Matches T.base as bs) :
      T.Part { kind := .unary op, ty, atoms := as, endsWithJump := jumps }
        { kind := .unary op, ty, atoms := bs, endsWithJump := jumps } :=
    ⟨⟨rfl, rfl, rfl, rfl, rfl⟩, has⟩
  cases operand? with
  | none => exact .pure (hdoc true (.control "throw"))
  | some e =>
    have hvalue : Alike T.Part (value (T.child e)) (value (T.twinOf e)) := alike_value h
    have hoperand (level : Level) := alike_operand (T := T) (e := e) h level
    have hsigned (isMinus : Bool) := alike_signed (T := T) (e := e) isMinus h
    have hcall (m : MethodInfo) := alike_staticCall (.unary op) m.declaring m.name ty h
    rw [Option.toList_some] at hcall
    dsimp only [Option.map_some]
    unfold unary
    dsimp only
    split
    · exact hcall _
    · cases op with
      | negate | unaryPlus => exact (hsigned _).last fun as as' has => hdoc false has
      | negateChecked =>
        exact (hsigned _).last fun as as' has => hdoc false (.append (.keyword _) (.parens has))
      | isTrue => exact hvalue
      | convert | convertChecked | unbox =>
        dsimp only
        rw [Node.ty_relabel]
        split
        · exact hvalue
        · exact (hoperand _).last fun d d' hd => hdoc false (by grind)
      | quote =>
        exact hvalue.last fun d d' hd =>
          hdoc false (.append (.when _ (.append (.token _ _) .newline)) hd.atoms)
      | throw => exact hvalue.last fun d d' hd => hdoc true (by grind)
      | _ => exact (hoperand _).last fun d d' hd => hdoc false (by grind)

theorem alike_typeTest (h : T.AgreesOn [Arrangement.value e]) (tested : TypeRef) (exact : Bool) :
    Alike T.Part (typeTest T.env (T.child e) tested exact)
      (typeTest T.twin (T.twinOf e) tested exact) := by
  unfold typeTest
  split
  · refine (alike_operand h _).last fun d d' hd => ⟨⟨rfl, rfl, rfl, rfl, rfl⟩, ?_⟩
    have hlead : Matches T.base (d.atoms ++ text "." ++ methodName "GetType" ++ text "()")
        (d'.atoms ++ text "." ++ methodName "GetType" ++ text "()") := by
      grind
    exact .append (.append (.append hlead (.operator _ _)) (.keyword _)) (.parens (matches_typeName _))
  · refine (alike_operand h _).last fun d d' hd => ⟨⟨rfl, rfl, rfl, rfl, rfl⟩, ?_⟩
    grind

theorem alike_ternary {test ifTrue ifFalse : Expr} (ty : TypeRef)
    (h : T.AgreesOn (Arrangement.values [test, ifTrue, ifFalse])) :
    Alike T.Part (ternary (T.child test) (T.child ifTrue) (T.child ifFalse) ty)
      (ternary (T.twinOf test) (T.twinOf ifTrue) (T.twinOf ifFalse) ty) := by
  refine (alike_operand (h.values (by simp)) _).bind fun d d' hd => ?_
  refine (alike_operand (h.values (by simp)) _).bind fun i i' hi => ?_
  refine (alike_operand (h.values (by simp)) _).last fun o o' ho => ⟨⟨rfl, rfl, rfl, rfl, rfl⟩, ?_⟩
  dsimp only
  rw [hd.size, hi.size, ho.size]
  split <;> grind

end Operators

/-! ### Literals and extensions -/

theorem matches_realLiteral (x : Number.Binary64) (ty : TypeRef) :
    Matches T.base (realLiteral T.env x ty) (realLiteral T.env x ty) := by
  unfold realLiteral
  dsimp only
  split
  · exact .token _ _
  · split <;> exact .append (.append (.typeName _ ty) (.text _)) (.text _)

theorem part_literal (v : ConstantValue) (ty : TypeRef) :
    T.Part (literal T.env v ty) (literal T.twin v ty) := by
  refine ⟨⟨rfl, rfl, rfl, rfl, rfl⟩, ?_⟩
  show Matches T.base (literalAtoms T.env v ty) (literalAtoms T.env v ty)
  unfold literalAtoms
  cases v with
  | float x => exact matches_realLiteral x ty
  | type t => exact .append (.keyword _) (.parens (.typeName _ t))
  | enumMember name => exact .append (.append (.typeName _ ty) (.text _)) (.text _)
  | closure fields => exact .typeName _ ty
  | _ => exact .token _ _

theorem matches_commentLines (lines : List (List Char)) :
    Matches T.base (commentLines lines) (commentLines lines) := by
  induction lines with
  | nil => exact .nil
  | cons line lines ih =>
    cases lines with
    | nil => exact .token _ _
    | cons line' lines => exact .append (.append (.token _ _) .newline) ih

theorem part_defaultValue (ty : TypeRef) :
    T.Part (defaultValue T.env ty) (defaultValue T.twin ty) := by
  unfold defaultValue
  split
  · exact ⟨⟨rfl, rfl, rfl, rfl, rfl⟩, .nil⟩
  · exact ⟨⟨rfl, rfl, rfl, rfl, rfl⟩, .append (.keyword _) (.parens (matches_typeName ty))⟩

theorem alike_extension (name : String) (ty : TypeRef) (display : Option String) {es : List Expr}
    (h : T.AgreesOn (if display.isSome then [] else Arrangement.values es)) :
    Alike T.Part (extension name ty display (es.map T.child))
      (extension name ty display (es.map T.twinOf)) := by
  unfold extension
  cases display with
  | some display => exact .pure ⟨⟨rfl, rfl, rfl, rfl, rfl⟩, .text _⟩
  | none =>
    dsimp only
    rw [List.isEmpty_map, List.isEmpty_map]
    split
    · exact .pure ⟨⟨rfl, rfl, rfl, rfl, rfl⟩, .text _⟩
    · refine (alike_values h).last fun ds ds' hds => ⟨⟨rfl, rfl, rfl, rfl, rfl⟩, ?_⟩
      grind

end Twins

end TreeScribe
