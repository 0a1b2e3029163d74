import TreeScribe.Proofs.Render.Balanced.Initializers
import TreeScribe.Proofs.Render.Balanced.Statements

/-! All brackets in what is made of a tree are closed.

The texts in a tree have no brackets, and whatever a renderer writes for a bracket of its own, it writes a
pair of them around parts whose brackets are closed (`balanced_form`). So the brackets of whole documents
are closed, in every position and under all settings without custom renderers (`Env.balanced_renderer`). -/
namespace TreeScribe

open Render Atoms

namespace Render

variable {env : Env} (henv : env.IsPlain)

include henv

section Tree

variable (node : Nat) {form : Form Child} (h : ∀ c ∈ form.children, BalancedChild c)
  (htexts : AllPlain form.texts)

include h htexts

theorem balanced_builtIn : Gives (builtIn env node form) Doc.IsBalanced := by
  cases form with
  | constant c =>
    obtain ⟨hty, hvalue⟩ := allPlain_append.mp htexts
    exact .pure (balanced_literal henv hvalue hty)
  | parameter v =>
    obtain ⟨hname, hty⟩ := allPlain_cons.mp htexts
    exact .pure (Balanced.mention _ (isPlain_writtenName hname hty))
  | binary op left right ty method =>
    have hl := h left (by simp [Form.children])
    have hr := h right (by simp [Form.children])
    dsimp only [builtIn]
    split
    · exact balanced_assignment henv hl hr node op ty
    · exact balanced_binary henv hl hr op ty (allPlain_getD htexts)
  | unary op operand? ty method =>
    exact balanced_unary henv op (fun c hc => h c (Option.mem_toList.mpr hc)) (allPlain_append.mp htexts).1
      (allPlain_getD htexts)
  | conditional test ifTrue ifFalse ty =>
    have htest := h test (by simp [Form.children])
    have htrue := h ifTrue (by simp [Form.children])
    have hfalse := h ifFalse (by simp [Form.children])
    dsimp only [builtIn]
    split
    · exact balanced_ternary htest htrue hfalse ty
    · exact balanced_ifStatement htest htrue hfalse ty _
  | block locals expressions ty => exact balanced_valueBlock henv h node locals ty
  | lambda name parameters body returnType ty =>
    have hparameters := (allPlain_append.mp (allPlain_append.mp htexts).1).1
    exact balanced_lambda henv (allPlain_flatMap.mp hparameters) node (h body (List.mem_cons_self ..)) returnType ty
  | call receiver method args => exact balanced_call henv htexts h
  | invoke target args ty =>
    exact balanced_invoke henv (h target (List.mem_cons_self ..)) (fun c hc => h c (List.mem_cons_of_mem _ hc)) ty
  | member receiver info =>
    exact balanced_memberAccess henv (fun c hc => h c (Option.mem_toList.mpr hc)) htexts
  | new creation => exact balanced_new henv htexts h
  | newArray elementType expressions bounds => exact balanced_newArray henv htexts h bounds
  | memberInit creation bindings =>
    obtain ⟨hcreation, hnames⟩ := allPlain_append.mp htexts
    exact balanced_memberInit henv hcreation (fun c hc => h c (List.mem_append_left _ hc)) hnames
      fun c hc => h c (List.mem_append_right _ hc)
  | listInit creation items =>
    exact balanced_listInit henv htexts (fun c hc => h c (List.mem_append_left _ hc))
      fun c hc => h c (List.mem_append_right _ hc)
  | loop body breakTarget continueTarget =>
    exact balanced_loop env node (h body (List.mem_cons_self ..)) (allPlain_getD (show AllPlain ([] ++ _) from htexts))
  | jump kind target result ty =>
    exact balanced_jump kind (allPlain_append.mp htexts).1 (fun c hc => h c (Option.mem_toList.mpr hc)) ty
  | label target defaultValue =>
    exact balanced_label env htexts (fun c hc => h c (Option.mem_toList.mpr hc)) _
  | switch subject cases defaultBody ty => exact balanced_switch node h _
  | «try» tried handlers cleanup fault ty =>
    exact balanced_attempt henv h (allPlain_flatMap.mp (allPlain_append.mp htexts).1) _
  | default ty => exact .pure (balanced_defaultValue henv htexts)
  | index object _ args ty =>
    exact balanced_index (h object (List.mem_cons_self ..)) (fun c hc => h c (List.mem_cons_of_mem _ hc)) ty
  | typeTest expression tested exact =>
    exact balanced_typeTest henv (h expression (List.mem_cons_self ..)) htexts exact
  | comment s => exact .pure (balanced_commentLines _)
  | extension name ty display operands =>
    obtain ⟨hnames, -⟩ := allPlain_append.mp htexts
    obtain ⟨hname, hdisplay⟩ := allPlain_cons.mp hnames
    exact balanced_extension hname ty (fun s hs => hdisplay s (Option.mem_toList.mpr hs)) h

theorem balanced_asValue : Gives (asValue env node form) Doc.IsBalanced := by
  unfold asValue
  rw [Env.custom?_eq_none henv.custom]
  exact balanced_builtIn henv node h htexts

theorem balanced_asStatement : Gives (asStatement env node form) Doc.IsBalanced := by
  unfold asStatement
  rw [Env.custom?_eq_none henv.custom, pure_bind]
  dsimp only
  split
  · exact balanced_nestedBlock henv h node _ _ _
  · simp only [Form.children, List.forall_mem_cons] at h
    exact balanced_ifStatement h.1 h.2.1 h.2.2.1 _ _
  · exact balanced_asValue henv node h htexts

theorem balanced_asReturning : Gives (asReturning env node form) Doc.IsBalanced := by
  have hreturned (d : Doc) (hd : d.IsBalanced) :
      Doc.IsBalanced (if isNotReturned form then d else d.returned) := by
    split
    · exact hd
    · exact hd.returned
  have hvalue := (balanced_asValue henv node h htexts).bind fun d hd => Gives.pure (hreturned d hd)
  unfold asReturning
  rw [Env.custom?_eq_none henv.custom, pure_bind]
  dsimp only
  split
  · exact balanced_nestedBlock henv h node _ _ _
  · split
    · exact hvalue
    · simp only [Form.children, List.forall_mem_cons] at h
      exact balanced_ifStatement h.1 h.2.1 h.2.2.1 _ _
  · exact balanced_switch node h _
  · exact balanced_attempt henv h (allPlain_flatMap.mp (allPlain_append.mp htexts).1) _
  · exact balanced_label env htexts (fun c hc => h c (Option.mem_toList.mpr hc)) _
  · exact hvalue

theorem balanced_asBody (returns : Bool) : Gives (asBody env node form returns) Doc.IsBalanced := by
  have hsingle : Gives (do
      let d ← if returns then asReturning env node form else asStatement env node form
      return (d.noted node).terminated) Doc.IsBalanced := by
    cases returns with
    | true => exact (balanced_asReturning henv node h htexts).bind fun d hd => .pure (hd.noted node).terminated
    | false => exact (balanced_asStatement henv node h htexts).bind fun d hd => .pure (hd.noted node).terminated
  unfold asBody
  dsimp only
  split
  · split
    · exact (balanced_blockStatements henv h node _ _).bind fun d hd => .pure (hd.noted node)
    · exact hsingle
  · exact hsingle

/-- **The brackets in all that is made of a node are closed** if those in all that is made of its children
are. -/
theorem balanced_form : BalancedRenderer (renderer env node form) where
  inPosition
    | .value => (balanced_asValue henv node h htexts).map fun d hd => by
        unfold notedValue
        split
        · exact hd
        · exact hd.noted node
    | .statement => (balanced_asStatement henv node h htexts).map fun _ hd => hd.noted node
    | .returning => (balanced_asReturning henv node h htexts).map fun _ hd => hd.noted node
  body := balanced_asBody henv node h htexts
  chained returns := by
    refine Gives.map (P := Doc.IsBalanced) ?_ fun _ hd => hd.noted node
    unfold asChained
    split
    · simp only [Form.children, List.forall_mem_cons] at h
      exact balanced_ifStatement h.1 h.2.1 h.2.2.1 _ _
    · exact balanced_asStatement henv node h htexts
  landing returns := by
    refine Gives.map (P := Doc.IsBalanced) ?_ fun _ hd => hd.noted node
    unfold asLanding
    split
    · exact balanced_label env htexts (fun c hc => h c (Option.mem_toList.mpr hc)) _
    · exact balanced_asReturning henv node h htexts
  elements := by
    show Gives (asElements form) _
    unfold asElements
    split
    · exact balanced_values h
    · exact .pure (by simp)

end Tree

end Render

/-- **The brackets in all that is made of a tree are closed** if there are none in its names. -/
theorem Env.balanced_renderer {env : Env} (henv : env.IsPlain) {e : Expr} (h : AllPlain e.texts) :
    BalancedRenderer (env.renderer e) := by
  induction e using Node.induction with
  | h node form ih =>
    rw [Node.texts_mk] at h
    obtain ⟨hform, hchildren⟩ := allPlain_append.mp h
    rw [renderer_mk]
    refine balanced_form henv node (fun c hc => ?_) ((Form.texts_map _ form).symm ▸ hform)
    rw [Form.children_map] at hc
    obtain ⟨e, he, rfl⟩ := List.mem_map.mp hc
    have hplain := allPlain_flatMap.mp hchildren e he
    have htexts := hplain.mono (Node.form_texts_subset e.mem_nodes_self)
    exact ⟨ih e he hplain, htexts⟩

end TreeScribe
