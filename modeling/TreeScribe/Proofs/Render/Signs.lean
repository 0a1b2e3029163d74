import TreeScribe.Proofs.Render.Signs.Calls
import TreeScribe.Proofs.Render.Signs.Statements

/-! Which signs run into each other.

A sign looks no further than the node of its operand, and the text of the operand begins as its node
tells (`start_renderer`). So a sign runs into the same sign exactly if the operand begins with that sign
further down, in nodes that are written as one of their parts or start with one, or in a literal that
does not count as negative (`signs_join_iff`). -/
namespace TreeScribe

open Render Atoms

namespace Render

variable (env : Env)

/-! ### Whole trees -/

theorem starts_builtIn {declared : List Slot} {f : Expr → Start} (node : Nat) {form : Form Child}
    (h : ∀ c ∈ form.children, StartsAs declared (value c) (f c.1)) :
    StartsAs declared (builtIn env node form)
      (Start.ofForm env declared node (form.map fun c => (c.1, f c.1))) := by
  cases form with
  | constant c => exact .pure (start_literal env _ _)
  | parameter v => exact .pure (start_mention _ _)
  | binary op left right ty method =>
    have hleft := h left (by simp [Form.children])
    dsimp only [builtIn, Form.map, Start.ofForm]
    split
    · exact starts_assignment env hleft node op right ty
    · exact starts_binary env hleft op right ty method
  | unary op operand? ty method =>
    exact starts_unary env op (fun c hc => h c (Option.mem_toList.mpr hc)) ty method
  | conditional test ifTrue ifFalse ty =>
    have htest := h test (by simp [Form.children])
    dsimp only [builtIn, Form.map, Start.ofForm]
    split
    · exact starts_ternary htest ifTrue ifFalse ty
    · exact (starts_ifStatement test ifTrue ifFalse ty false).from declared
  | block locals expressions ty => exact starts_valueBlock env node locals h ty
  | lambda name parameters body returnType ty =>
    exact (starts_lambda env node parameters body returnType ty).from declared
  | call receiver method args =>
    exact starts_call env method
      (fun c hc => h c (List.mem_append_left _ (Option.mem_toList.mpr hc)))
      fun c hc => h c (List.mem_append_right _ hc)
  | invoke target args ty => exact starts_invoke env (h target (List.mem_cons_self ..)) args ty
  | member receiver info =>
    exact starts_memberAccess env info fun c hc => h c (Option.mem_toList.mpr hc)
  | new creation => exact (starts_new env creation).from declared
  | newArray elementType expressions bounds =>
    exact (starts_newArray env elementType expressions bounds).from declared
  | memberInit creation bindings | listInit creation items =>
    exact Gives.from ((starts_filled env creation _).bind fun as has => .pure has) declared
  | loop body breakTarget continueTarget => exact .after fun _ => .pure rfl
  | jump kind target result ty => exact (starts_jump kind target result ty).from declared
  | label target defaultValue => exact (starts_label env target defaultValue).from declared
  | switch subject cases defaultBody ty =>
    exact (starts_switch node subject cases defaultBody ty false).from declared
  | «try» tried handlers cleanup fault ty =>
    exact (starts_attempt env tried handlers cleanup fault ty false).from declared
  | default ty => exact .pure (start_defaultValue env ty)
  | index object indexer args ty =>
    refine starts_followed (h object (List.mem_cons_self ..)) _ fun d => ?_
    exact (starts_indexList args).bind fun list hlist => .pure (start_followed _ hlist)
  | typeTest expression tested exact =>
    exact starts_typeTest env (h expression (List.mem_cons_self ..)) tested exact
  | comment s => exact .pure (start_comment s)
  | extension name ty display operands =>
    have hempty : (operands.map fun c => (c.1, f c.1)).isEmpty = operands.isEmpty := by
      cases operands <;> rfl
    show StartsAs declared (extension name ty display operands)
      (Start.extension name display (operands.map fun c => (c.1, f c.1)).isEmpty)
    rw [hempty]
    exact (starts_extension name ty display operands).from declared

theorem start_notedValue {α : Type} (node : Nat) (form : Form α) (d : Doc) :
    (notedValue env node form d).atoms.start = d.atoms.start := by
  unfold notedValue Doc.noted
  split
  · rfl
  · split
    · rfl
    · rw [start_append, start_note, Start.or_nothing]

end Render

/-! ### Signs -/

/-- The sign that an operator writes before its operand, if it does. -/
def UnaryOp.sign? : UnaryOp → Option Bool
  | .negate | .negateChecked => some true
  | .unaryPlus => some false
  | _ => none

/-- The sign of an operator, with what is written before it. -/
def UnaryOp.lead (op : UnaryOp) (isMinus : Bool) : Atoms :=
  (if op = .negateChecked then keyword "checked" ++ [Atom.opening "("] else []) ++
    operator Level.unary (String.ofList [signChar isMinus])

/-- What follows a sign. -/
def Start.afterSign (isMinus : Bool) (c : Start.Child) : Start :=
  if startsWithSign isMinus c.1 then .other else Start.operand c Level.unary

theorem Start.afterSign_eq_iff (isMinus : Bool) (e : Expr) (s : Start) :
    Start.afterSign isMinus (e, s) = .sign isMinus ↔
      startsWithSign isMinus e = false ∧ Level.unary ≤ e.level ∧ s = .sign isMinus := by
  unfold Start.afterSign Start.operand
  split
  · simp_all
  · split
    next hlevel => simp [Nat.not_le_of_lt hlevel]
    next hlevel => simp_all [Nat.le_of_not_lt hlevel]

/-- The document starts with the sign of the operator, which runs into the same sign exactly if
this holds. -/
def Doc.SignJoins (op : UnaryOp) (isMinus : Bool) (joins : Prop) (d : Doc) : Prop :=
  ∃ rest : Atoms, d.atoms = op.lead isMinus ++ rest ∧ (rest.start = .sign isMinus ↔ joins)

namespace Render

theorem signJoins_notedValue {α : Type} (env : Env) (node : Nat) (form : Form α) {op : UnaryOp}
    {isMinus : Bool} {joins : Prop} {d : Doc} (h : d.SignJoins op isMinus joins) :
    (notedValue env node form d).SignJoins op isMinus joins := by
  unfold notedValue Doc.noted
  split
  · exact h
  · split
    · exact h
    · obtain ⟨rest, hatoms, hrest⟩ := h
      refine ⟨rest ++ note (.written node), ?_, ?_⟩
      · rw [← List.append_assoc, ← hatoms]
      · rw [start_append, start_note, Start.or_nothing]
        exact hrest

section Signs

variable {declared : List Slot} {c : Child} {s : Start} (h : StartsAs declared (value c) s)

include h

theorem starts_operandOfSign (isMinus : Bool) :
    GivesFrom declared (signed isMinus c) fun as =>
      ∃ rest, as = operator Level.unary (String.ofList [signChar isMinus]) ++ rest ∧
        rest.start = Start.afterSign isMinus (c.1, s) := by
  have hsign : (if isMinus then "-" else "+") = String.ofList [signChar isMinus] := by
    cases isMinus <;> rfl
  unfold signed Start.afterSign
  dsimp only
  rw [hsign]
  split
  · exact h.bind fun d hd => .pure ⟨_, rfl, rfl⟩
  · exact (starts_operand h _).bind fun d hd => .pure ⟨_, rfl, hd⟩

theorem starts_afterSign (env : Env) {op : UnaryOp} {isMinus : Bool} (hop : op.sign? = some isMinus)
    (ty : TypeRef) :
    GivesFrom declared (unary env op (some c) ty none)
      (Doc.SignJoins op isMinus (Start.afterSign isMinus (c.1, s) = .sign isMinus)) := by
  have hsigned := starts_operandOfSign h isMinus
  cases op with
  | negate | unaryPlus =>
    cases hop
    refine hsigned.bind fun as has => .pure ?_
    obtain ⟨rest, rfl, hrest⟩ := has
    exact ⟨rest, rfl, by rw [hrest]⟩
  | negateChecked =>
    cases hop
    refine hsigned.bind fun as has => .pure ?_
    obtain ⟨rest, rfl, hrest⟩ := has
    refine ⟨rest ++ [Atom.closing ")"], by simp [checkedAtoms, parens, bracketed, UnaryOp.lead], ?_⟩
    rw [start_append, hrest]
    exact Start.or_eq_sign_iff (by decide)
  | _ => cases hop

end Signs

end Render

namespace Env

variable {env : Env} (hcustom : env.settings.custom = [])

include hcustom

/-- **How the text of a tree begins can be told from the tree.** -/
theorem start_renderer (declared : List Slot) (e : Expr) :
    StartsAs declared (env.value e) (env.start declared e) := by
  induction e using Node.induction with
  | h node form ih =>
    have hchildren : ∀ c ∈ (form.map fun c => (c, env.renderer c)).children,
        StartsAs declared (Render.value c) (env.start declared c.1) := by
      intro c hc
      rw [Form.children_map] at hc
      obtain ⟨e, he, rfl⟩ := List.mem_map.mp hc
      exact ih e he
    have hbuiltIn := starts_builtIn env node hchildren
    rw [Form.map_map] at hbuiltIn
    show StartsAs declared ((env.renderer (.mk node form)).inPosition .value) _
    rw [renderer_mk, start_mk]
    refine GivesFrom.map (x := asValue env node _) ?_ fun d hd =>
      (start_notedValue env node _ d).trans hd
    rw [asValue, custom?_eq_none hcustom, pure_bind]
    exact hbuiltIn

/-- **When a sign runs into the same sign.** The character right after the sign of a negation or
a plus is that sign exactly if the operand is not put in parentheses, neither as one of the nodes
that are looked for nor for its level, and its text begins with the sign. -/
theorem signs_join_iff {op : UnaryOp} {isMinus : Bool} (hop : op.sign? = some isMinus)
    (declared : List Slot) (node : Nat) (e : Expr) (ty : TypeRef) :
    ∃ rest : Atoms,
      ((env.value (.mk node (.unary op (some e) ty none))).run declared).1.atoms =
        op.lead isMinus ++ rest ∧
      ((rest.flatMap Atom.chars).head? = some (signChar isMinus) ↔
        startsWithSign isMinus e = false ∧ Level.unary ≤ e.level ∧
          env.start declared e = .sign isMinus) := by
  have hunary : GivesFrom declared (unary env op (some (e, env.renderer e)) ty none)
      (Doc.SignJoins op isMinus (Start.afterSign isMinus (e, env.start declared e) = .sign isMinus)) :=
    starts_afterSign (start_renderer hcustom declared e) env hop ty
  have hvalue : GivesFrom declared (env.value (.mk node (.unary op (some e) ty none)))
      (Doc.SignJoins op isMinus (Start.afterSign isMinus (e, env.start declared e) = .sign isMinus)) := by
    show GivesFrom declared
      ((env.renderer (.mk node (.unary op (some e) ty none))).inPosition .value) _
    rw [renderer_mk]
    refine GivesFrom.map (x := asValue env node _) ?_ fun d hd => signJoins_notedValue env node _ hd
    rw [asValue, custom?_eq_none hcustom, pure_bind]
    exact hunary
  obtain ⟨rest, hatoms, hrest⟩ := hvalue
  refine ⟨rest, hatoms, ?_⟩
  rw [← Start.of_eq_sign_iff]
  exact hrest.trans (Start.afterSign_eq_iff ..)

omit hcustom

/-- `-x` -/
def negation : Expr := .mk 2 (.unary .negate (some (.mk 3 (.parameter { name := "x", ty := .int }))) .int none)

/-- `-x`, converted to the type that it has. -/
def convertedNegation : Expr := .mk 1 (.unary .convert (some negation) .int none)

/-- The negation of this is written `--x`. -/
theorem signs_join_convertedNegation :
    let env : Env := .ofExpr {} (.mk 0 (.unary .negate (some convertedNegation) .int none))
    env.settings.custom = [] ∧ UnaryOp.sign? .negate = some true ∧
      ∃ rest : Atoms,
        ((env.value (.mk 0 (.unary .negate (some convertedNegation) .int none))).run []).1.atoms =
          UnaryOp.lead .negate true ++ rest ∧
        (rest.flatMap Atom.chars).head? = some '-' := by
  intro env
  have hlevel : convertedNegation.level = Level.unary := by
    have hinner : negation.level = Level.unary := Node.level_mk ..
    have houter : convertedNegation.level = negation.level :=
      (Node.level_mk ..).trans (if_pos (c := negation.ty = .int) (e := Level.unary) rfl)
    rw [houter, hinner]
  have hstart : env.start [] convertedNegation = .sign true := by
    have hinner : env.start [] negation = .sign true := start_mk ..
    have houter : env.start [] convertedNegation = env.start [] negation :=
      (start_mk ..).trans (if_pos (c := negation.ty = .int) (e := .other) rfl)
    rw [houter, hinner]
  obtain ⟨rest, hatoms, hjoin⟩ :=
    @signs_join_iff env rfl .negate true rfl [] 0 convertedNegation .int
  exact ⟨rfl, rfl, rest, hatoms, hjoin.mpr ⟨rfl, Nat.le_of_eq hlevel.symm, hstart⟩⟩

end Env

end TreeScribe
