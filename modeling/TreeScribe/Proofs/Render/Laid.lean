import TreeScribe.Proofs.Render.Laid.Initializers
import TreeScribe.Proofs.Render.Laid.Statements

/-! Whatever is made of a tree is well laid and names only types that its nodes name, in every
position and under all settings (`laid_renderer`). -/
namespace TreeScribe

open Render Atoms

variable {P : TypeRef → Prop}

namespace Render

variable (env : Env)

section Tree

variable (node : Nat) {form : Form Child}

theorem laid_custom? : Gives (custom? env node form) fun d? => ∀ d ∈ d?, d.IsLaid P := by
  unfold custom?
  split
  · exact .pure (by simp)
  · refine .after fun s? => .pure fun d hd => ?_
    obtain ⟨s, -, rfl⟩ := Option.map_eq_some_iff.mp hd
    exact .text s

/-- Unless a custom renderer makes something of the node. -/
theorem laid_unlessCustom {x : Rendering Doc} (hx : Gives x (Doc.IsLaid P)) {f : Doc → Doc}
    (hf : ∀ d, d.IsLaid P → (f d).IsLaid P) :
    Gives (do
      match ← custom? env node form with
      | some d => return f d
      | none => x) (Doc.IsLaid P) := by
  refine (laid_custom? (P := P) env node).bind fun d? hd? => ?_
  cases d? with
  | none => exact hx
  | some d => exact .pure (hf d (hd? d rfl))

variable (h : ∀ c ∈ form.written env.settings (·.1.isClosure), LaidChild P c)
  (hnames : ∀ t ∈ (form.map (·.1)).spelled env.settings, P t)
  (hdeclared : ∀ t ∈ (form.map (·.1)).declared env node, P t)

include h hnames hdeclared

omit h hnames hdeclared in
/-- Handlers name the types that they test for. -/
theorem forall_tests {handlers : List (Handler Child)}
    (hnames : ∀ t ∈ (handlers.map (·.map (·.1))).map (·.test), P t) :
    ∀ k ∈ handlers, P k.test := by
  rw [List.map_map] at hnames
  exact List.forall_mem_map.mp hnames

theorem laid_builtIn : Gives (builtIn env node form) (Doc.IsLaid P) := by
  cases form with
  | constant c => exact .pure (laid_literal env hnames)
  | parameter v => exact .pure (.mention _ _)
  | binary op left right ty method =>
    have hl := h left (by simp [Form.written, Form.children])
    have hr := h right (by simp [Form.written, Form.children])
    simp only [Form.map, Form.spelled] at hnames
    dsimp only [builtIn]
    split
    next hassignment =>
      rw [if_pos hassignment] at hnames
      exact laid_assignment env hl hr ty hdeclared fun hpower => hnames _ (by simp [hpower])
    next hassignment =>
      rw [if_neg hassignment] at hnames
      exact laid_binary env hl hr op ty hnames
  | unary op operand? ty method =>
    exact laid_unary env op (fun c hc => h c (Option.mem_toList.mpr hc)) hnames
  | conditional test ifTrue ifFalse ty =>
    have htest := h test (by simp [Form.written, Form.children])
    have htrue := h ifTrue (by simp [Form.written, Form.children])
    have hfalse := h ifFalse (by simp [Form.written, Form.children])
    dsimp only [builtIn]
    split
    · exact laid_ternary htest htrue hfalse ty
    · exact laid_ifStatement htest htrue hfalse ty _
  | block locals expressions ty => exact laid_valueBlock env h (List.forall_mem_map.mp hdeclared) locals ty
  | lambda name parameters body returnType ty =>
    exact laid_lambda env hnames (h body (List.mem_cons_self ..)) returnType ty
  | call receiver method args =>
    exact laid_call env h hnames hdeclared
  | invoke target args ty =>
    exact laid_invoke env (h target (List.mem_cons_self ..))
      (fun c hc => h c (List.mem_cons_of_mem _ hc)) hdeclared ty
  | member receiver info =>
    have hreceiver : ∀ c ∈ receiver, c.1.isClosure = false → LaidChild P c := by
      intro c hc hopen
      exact h c (List.mem_filter.mpr ⟨Option.mem_toList.mpr hc, by simp [hopen]⟩)
    exact laid_memberAccess env hreceiver hnames
  | new creation =>
    refine laid_new env h hdeclared fun hnamed => hnames creation.ty ?_
    show creation.ty ∈ (if creation.ty.isAnonymous then [] else [creation.ty])
    rw [if_neg (Bool.not_eq_true _ ▸ hnamed)]
    exact List.mem_singleton_self _
  | newArray elementType expressions bounds => exact laid_newArray env h hnames
  | memberInit creation bindings =>
    exact laid_memberInit env (fun c hc => h c (List.mem_append_left _ hc)) hdeclared
      (hnames _ (List.mem_singleton_self _)) fun c hc => h c (List.mem_append_right _ hc)
  | listInit creation items =>
    exact laid_listInit env (fun c hc => h c (List.mem_append_left _ hc)) hdeclared
      (hnames _ (List.mem_singleton_self _)) fun c hc => h c (List.mem_append_right _ hc)
  | loop body breakTarget _ => exact laid_loop env node (h body (List.mem_cons_self ..)) breakTarget
  | jump kind target result ty =>
    exact laid_jump kind target (fun c hc => h c (Option.mem_toList.mpr hc)) ty
  | label target defaultValue =>
    exact laid_label env target (fun c hc => h c (Option.mem_toList.mpr hc)) _
  | switch subject cases defaultBody ty => exact laid_switch node h _
  | «try» tried handlers cleanup fault ty => exact laid_attempt env h (forall_tests hnames) _
  | default ty =>
    refine .pure (laid_defaultValue env fun hwritten => hnames ty ?_)
    show ty ∈ (if ty.isVoid then [] else [ty])
    rw [if_neg (Bool.not_eq_true _ ▸ hwritten)]
    exact List.mem_singleton_self _
  | index object _ args ty =>
    exact laid_index (h object (List.mem_cons_self ..))
      (fun c hc => h c (List.mem_cons_of_mem _ hc)) ty
  | typeTest expression tested exact =>
    exact laid_typeTest env (h expression (List.mem_cons_self ..))
      (hnames tested (List.mem_singleton_self _)) exact
  | comment s => exact .pure (laid_commentLines _)
  | extension name ty display operands => exact laid_extension name ty display h

theorem laid_asValue : Gives (asValue env node form) (Doc.IsLaid P) :=
  laid_unlessCustom env node (laid_builtIn env node h hnames hdeclared) fun _ hd => hd

theorem laid_asStatement : Gives (asStatement env node form) (Doc.IsLaid P) := by
  refine laid_unlessCustom env node ?_ fun _ hd => hd
  split
  · exact laid_nestedBlock env h (List.forall_mem_map.mp hdeclared) _ _ _
  · simp only [Form.written, Form.children, List.forall_mem_cons] at h
    exact laid_ifStatement h.1 h.2.1 h.2.2.1 _ _
  · exact laid_asValue env node h hnames hdeclared

theorem laid_asReturning : Gives (asReturning env node form) (Doc.IsLaid P) := by
  have hreturned (d : Doc) (hd : d.IsLaid P) :
      Doc.IsLaid P (if isNotReturned form then d else d.returned) := by
    split
    · exact hd
    · exact hd.returned
  have hvalue := (laid_asValue env node h hnames hdeclared).bind fun d hd => Gives.pure (hreturned d hd)
  refine laid_unlessCustom env node ?_ hreturned
  split
  · exact laid_nestedBlock env h (List.forall_mem_map.mp hdeclared) _ _ _
  · split
    · exact hvalue
    · simp only [Form.written, Form.children, List.forall_mem_cons] at h
      exact laid_ifStatement h.1 h.2.1 h.2.2.1 _ _
  · exact laid_switch node h _
  · exact laid_attempt env h (forall_tests hnames) _
  · exact laid_label env _ (fun c hc => h c (Option.mem_toList.mpr hc)) _
  · exact hvalue

theorem laid_asBody (returns : Bool) : Gives (asBody env node form returns) (Doc.IsLaid P) := by
  have hsingle : Gives (do
      let d ← if returns then asReturning env node form else asStatement env node form
      return (d.noted node).terminated) (Doc.IsLaid P) := by
    cases returns with
    | true => exact (laid_asReturning env node h hnames hdeclared).bind fun d hd => .pure (hd.noted node).terminated
    | false => exact (laid_asStatement env node h hnames hdeclared).bind fun d hd => .pure (hd.noted node).terminated
  unfold asBody
  dsimp only
  split
  · split
    · exact (laid_blockStatements env h (List.forall_mem_map.mp hdeclared) _ _).bind fun d hd => .pure (hd.noted node)
    · exact hsingle
  · exact hsingle

theorem laid_form : LaidRenderer P (renderer env node form) where
  inPosition
    | .value => (laid_asValue env node h hnames hdeclared).map fun d hd => by
        unfold notedValue
        split
        · exact hd
        · exact hd.noted node
    | .statement => (laid_asStatement env node h hnames hdeclared).map fun _ hd => hd.noted node
    | .returning => (laid_asReturning env node h hnames hdeclared).map fun _ hd => hd.noted node
  body := laid_asBody env node h hnames hdeclared
  chained returns := by
    refine Gives.map (P := Doc.IsLaid P) ?_ fun _ hd => hd.noted node
    unfold asChained
    split
    · simp only [Form.written, Form.children, List.forall_mem_cons] at h
      exact laid_ifStatement h.1 h.2.1 h.2.2.1 _ _
    · exact laid_asStatement env node h hnames hdeclared
  landing returns := by
    refine Gives.map (P := Doc.IsLaid P) ?_ fun _ hd => hd.noted node
    unfold asLanding
    split
    · exact laid_label env _ (fun c hc => h c (Option.mem_toList.mpr hc)) _
    · exact laid_asReturning env node h hnames hdeclared
  elements := by
    show Gives (asElements form) _
    unfold asElements
    split
    · exact laid_values h
    · exact .pure (by simp)

end Tree

end Render

namespace Env

variable (env : Env)

theorem renderer_mk (node : Nat) (form : Form Expr) :
    env.renderer (.mk node form) =
      Render.renderer env node (form.map fun c => (c, env.renderer c)) :=
  Node.para_mk ..

/-- **All that is made of a tree is well laid**, and names only types that its nodes name. -/
theorem laid_renderer {W : Expr → Prop} (hspelled : ∀ e, W e → ∀ t ∈ e.form.spelled env.settings, P t)
    (hdeclared : ∀ e, W e → ∀ t ∈ e.form.declared env e.label, P t)
    (hwritten : ∀ e, W e → ∀ c ∈ e.form.written env.settings Node.isClosure, W c) {e : Expr} (he : W e) :
    LaidRenderer P (env.renderer e) := by
  induction e using Node.induction with
  | h node form ih =>
    have hsame : (form.map fun c => (c, env.renderer c)).map (·.1) = form := by
      rw [Form.map_map]
      exact Form.map_id form
    rw [renderer_mk]
    refine laid_form env node (fun c hc => ?_) (hsame.symm ▸ hspelled _ he) (hsame.symm ▸ hdeclared _ he)
    rw [Form.written_map] at hc
    obtain ⟨e, hwrote, rfl⟩ := List.mem_map.mp hc
    exact ih e (Form.written_subset _ _ _ hwrote) (hwritten _ he e hwrote)

/-- All that is made of a tree is well laid. -/
theorem wellLaid_renderer (e : Expr) : Render.WellLaidChild (e, env.renderer e) :=
  laid_renderer env (W := fun _ => True) (fun _ _ _ _ => trivial) (fun _ _ _ _ => trivial) (fun _ _ _ _ => trivial)
    trivial

end Env

theorem Doc.laid_ofExpr {settings : Settings} {e : Expr}
    (h : LaidRenderer P ((Env.ofExpr settings e).renderer e)) : (Doc.ofExpr settings e).IsLaid P := by
  unfold Doc.ofExpr Env.root
  split
  · exact h.body false []
  · exact h.inPosition .value []

theorem Doc.wellLaid_ofExpr (settings : Settings) (e : Expr) : (Doc.ofExpr settings e).IsWellLaid :=
  Doc.laid_ofExpr (Env.wellLaid_renderer _ e)

end TreeScribe
