import TreeScribe.Proofs.Render.Operand.Calls
import TreeScribe.Proofs.Render.Operand.Statements

/-! Which operators a written operand leaves outside all brackets.

Without custom renderers the operators at the top of what is made of a tree are those of its
surface (`Env.shown_renderer`). So an operand binds as tightly as it has to, except through misjudged
nodes (`operand_binds_iff`). -/
namespace TreeScribe

open Render Atoms

namespace Render

variable (env : Env)

/-! ### Whole trees -/

theorem top_builtIn (node : Nat) {form : Form Child}
    (h : ∀ c ∈ form.children, ShownChild env.settings c) :
    Gives (builtIn env node form) fun d =>
      Atoms.top d.atoms = Surface.shown env.settings ((form.map (·.1)).surface env.settings) := by
  have hlaid : ∀ c ∈ form.children, WellLaidChild c := fun c hc => (h c hc).laid
  have hnone {x : Rendering Doc} (hx : Gives x fun d => Atoms.top d.atoms = ∅) :
      Gives x fun d => Atoms.top d.atoms = Surface.shown env.settings [] := by
    simpa using hx
  cases form with
  | constant c => exact hnone (.pure (top_literal env _ _))
  | parameter v => exact hnone (.pure (top_mention _ _))
  | binary op left right ty method =>
    have hl := h left (by simp [Form.children])
    have hr := h right (by simp [Form.children])
    dsimp only [builtIn, Form.map, Form.surface]
    split
    · exact top_assignment env hl hr node op ty
    · exact top_binary env hl hr op ty method
  | unary op operand? ty method =>
    exact top_unary env op ty method fun c hc => h c (Option.mem_toList.mpr hc)
  | conditional test ifTrue ifFalse ty =>
    have htest := h test (by simp [Form.children])
    have htrue := h ifTrue (by simp [Form.children])
    have hfalse := h ifFalse (by simp [Form.children])
    dsimp only [builtIn, Form.map, Form.surface, Surface.conditional]
    split
    · exact top_ternary htest htrue hfalse ty
    · simpa using top_ifStatement htest.laid htrue.laid hfalse ty false
  | block locals expressions ty => exact top_valueBlock env node locals h ty
  | lambda name parameters body returnType ty =>
    exact top_lambda env node parameters (h body (List.mem_cons_self ..)) returnType ty
  | call receiver method args =>
    exact top_call env method (fun c hc => h c (List.mem_append_left _ (Option.mem_toList.mpr hc)))
      fun c hc => h c (List.mem_append_right _ hc)
  | invoke target args ty =>
    exact top_invoke env (h target (List.mem_cons_self ..))
      (fun c hc => hlaid c (List.mem_cons_of_mem _ hc)) ty
  | member receiver info =>
    exact top_memberAccess env info fun c hc => h c (Option.mem_toList.mpr hc)
  | new creation => exact hnone (top_new env hlaid)
  | newArray elementType expressions bounds =>
    exact hnone (top_newArray env elementType bounds hlaid)
  | memberInit creation bindings =>
    have hargs := fun c hc => hlaid c (List.mem_append_left _ hc)
    exact hnone (top_memberInit env hargs fun c hc => hlaid c (List.mem_append_right _ hc))
  | listInit creation items =>
    have hargs := fun c hc => hlaid c (List.mem_append_left _ hc)
    exact hnone (top_listInit env hargs fun c hc => hlaid c (List.mem_append_right _ hc))
  | loop body breakTarget continueTarget =>
    exact hnone (top_loop env node (hlaid body (List.mem_cons_self ..)) breakTarget)
  | jump kind target result ty =>
    exact top_jump kind target (fun c hc => h c (Option.mem_toList.mpr hc)) ty
  | label target defaultValue =>
    exact hnone (top_label env target defaultValue)
  | switch subject cases defaultBody ty =>
    exact hnone (top_switch node hlaid false)
  | «try» tried handlers cleanup fault ty =>
    exact hnone (top_attempt env hlaid false)
  | default ty => exact hnone (.pure (top_defaultValue env ty))
  | index object indexer args ty =>
    exact top_index (h object (List.mem_cons_self ..))
      (fun c hc => hlaid c (List.mem_cons_of_mem _ hc)) ty
  | typeTest expression tested exact =>
    exact top_typeTest env (h expression (List.mem_cons_self ..)) tested exact
  | comment s => exact hnone (.pure (top_commentLines _))
  | extension name ty display operands =>
    exact hnone (top_extension name ty display hlaid)

end Render

namespace Env

variable {env : Env} (hcustom : env.settings.custom = [])

include hcustom

theorem custom?_eq_none (node : Nat) (form : Form Child) :
    custom? env node form = pure none := by
  simp [custom?, Settings.custom?, hcustom]

/-- The operators at the top of a tree are those of its surface. -/
theorem shown_renderer (e : Expr) : ShownChild env.settings (e, env.renderer e) := by
  induction e using Node.induction with
  | h node form ih =>
    have hchildren : ∀ c ∈ (form.map fun c => (c, env.renderer c)).children,
        ShownChild env.settings c := by
      intro c hc
      rw [Form.children_map] at hc
      obtain ⟨e, he, rfl⟩ := List.mem_map.mp hc
      exact ih e he
    refine ⟨wellLaid_renderer env _, ?_, fun test ifTrue ifFalse ty hform returns => ?_⟩
    · show Gives ((env.renderer (.mk node form)).inPosition .value) _
      rw [renderer_mk, Surface.shown_bare_mk]
      refine Gives.map (x := asValue env node _) (P := fun d => d.IsWellLaid ∧ Atoms.top d.atoms = _)
        ((laid_asValue env node (fun c hc => (hchildren c (Form.written_subset _ _ _ hc)).laid)
          (fun _ _ => trivial) fun _ _ => trivial).and ?_)
        fun d hd => (top_notedValue env node _ hd.1).trans hd.2
      rw [asValue, custom?_eq_none hcustom, pure_bind]
      have hmap : (form.map fun c => (c, env.renderer c)).map (·.1) = form := by
        rw [Form.map_map]
        exact form.map_id
      simpa [hmap] using top_builtIn env node hchildren
    · show Gives ((env.renderer (.mk node form)).chained returns) _
      have hform : form = .conditional test ifTrue ifFalse ty := hform
      subst hform
      rw [renderer_mk]
      simp only [Form.map, Form.children, List.forall_mem_cons] at hchildren
      have hif := top_ifStatement hchildren.1.laid hchildren.2.1.laid hchildren.2.2.1 ty returns
      have hlaid := laid_ifStatement hchildren.1.laid hchildren.2.1.laid hchildren.2.2.1.laid ty
        returns
      exact (hlaid.and hif).map fun d hd => (Doc.top_noted hd.1 node).trans hd.2

/-- **What an operand leaves outside all brackets binds at least at its level, except for the
operators of misjudged nodes.** An operand that is not put in parentheses binds too loosely
exactly if a misjudged node shows such an operator. -/
theorem operand_binds_iff (e : Expr) (level : Level) (declared : List Slot) :
    (∀ l ∈ topLevels ((env.operand e level).run declared).1.atoms, level ≤ l) ↔
      (level ≤ e.level → ∀ l, Slips env.settings e l → level ≤ l) := by
  have htop : Atoms.top ((env.operand e level).run declared).1.atoms =
      (Surface.operand e level).shown env.settings :=
    (tops_operand (shown_renderer hcustom e) level declared).top
  have hmem (l : Level) : l ∈ topLevels ((env.operand e level).run declared).1.atoms ↔
      l ∈ (Surface.operand e level).shown env.settings := by
    rw [← htop]
    rfl
  simp only [hmem]
  unfold Surface.operand
  by_cases hlevel : e.level < level
  · have hnot : ¬level ≤ e.level := Nat.not_le_of_lt hlevel
    simp [hlevel, hnot]
  · have hle : level ≤ e.level := Nat.le_of_not_lt hlevel
    simp only [hlevel, if_false, Surface.shown_cons, Surface.shown_nil, Set.union_empty, hle,
      true_imp_iff]
    constructor
    · intro h l hslips
      exact h l hslips.shows
    · intro h l hshows
      rcases level_le_or_slips_of_shows hshows with hl | hslips
      · exact Nat.le_trans hle hl
      · exact h l hslips

omit hcustom

/-- `a + b`, alone in a block without variables. -/
def sumBlock : Expr :=
  let name (node : Nat) (s : String) : Expr := .mk node (.parameter { name := s, ty := .int })
  .mk 0 (.block [] [.mk 1 (.binary .add (name 2 "a") (name 3 "b") .int none)] .int)

/-- The sum stands bare as an operand of a multiplication. -/
theorem operand_binds_sumBlock :
    let env : Env := { settings := {}, analysis := Analysis.ofExpression {} sumBlock }
    env.settings.custom = [] ∧
      ¬∀ l ∈ topLevels ((env.operand sumBlock Level.multiplicative).run []).1.atoms,
        Level.multiplicative ≤ l := by
  refine ⟨rfl, fun h => ?_⟩
  have hlevel : sumBlock.level = Level.primary := Node.level_mk ..
  have hslips : Slips {} sumBlock Level.additive :=
    -- the surface is that of `add`: its operands on both sides of the sign
    .here rfl (.bare (List.mem_singleton_self _) (.sign
      (List.mem_append_left _ (List.mem_append_right _ (List.mem_singleton_self _)))))
  have hbinds := (operand_binds_iff rfl _ _ _).mp h
  rw [hlevel] at hbinds
  exact absurd (hbinds (by decide) _ hslips) (by decide)

end Env

end TreeScribe
