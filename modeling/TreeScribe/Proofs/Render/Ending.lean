import TreeScribe.Proofs.Render.Ending.Statements

/-! Whether a document is empty, is a complete statement or ends with a jump can be told from the tree
alone: it depends neither on the layout nor on what was declared before (`ending_renderer`). -/
namespace TreeScribe

namespace Env

open Render

variable {env : Env}

/-- What can be made of a tree ends as the tree tells. -/
abbrev EndsWell (env : Env) (e : Expr) : Prop := EndsAs (env.renderer e) (env.ending e)

theorem childrenEnd {es : List Expr} (h : ∀ e ∈ es, env.EndsWell e) :
    ChildrenEnd (es.map fun e => (e, env.renderer e)) (es.map fun e => (e, env.ending e)) := by
  induction es with
  | nil => exact .nil
  | cons e es ih =>
    exact .cons ⟨rfl, h e (List.mem_cons_self ..)⟩ (ih fun e' he => h e' (List.mem_cons_of_mem _ he))

theorem endsAs_switch (node : Nat) {subject : Expr} {cases : List (SwitchCase Expr)} {defaultBody : Option Expr}
    {ty : TypeRef} (h : ∀ e ∈ (Form.switch subject cases defaultBody ty).children, env.EndsWell e)
    (returns : Bool) :
    Ends (switch node (subject, env.renderer subject) (cases.map (·.map fun e => (e, env.renderer e)))
        (defaultBody.map fun e => (e, env.renderer e)) ty returns)
      (DocEnding.switch (cases.map (·.map fun e => (e, env.ending e)))
        (defaultBody.map fun e => (e, env.ending e)) returns) := by
  refine ends_switch node _ ?_ ?_ ty returns
  · rw [List.forall₂_map_left_iff, List.forall₂_map_right_iff, List.forall₂_same]
    exact fun c hc => ⟨rfl, h _ (Form.mem_children_case hc (List.mem_append_right _ (by simp)))⟩
  · cases defaultBody with
    | none => exact .none
    | some c => exact .some ⟨rfl, h c (List.mem_append_right _ (List.mem_singleton_self c))⟩

theorem endsAs_attempt {tried : Expr} {handlers : List (Handler Expr)} {cleanup fault : Option Expr}
    {ty : TypeRef} (h : ∀ e ∈ (Form.try tried handlers cleanup fault ty).children, env.EndsWell e)
    (returns : Bool) :
    Ends (attempt env (tried, env.renderer tried) (handlers.map (·.map fun e => (e, env.renderer e)))
        (cleanup.map fun e => (e, env.renderer e)) (fault.map fun e => (e, env.renderer e)) ty returns)
      (DocEnding.attempt (tried, env.ending tried) (handlers.map (·.map fun e => (e, env.ending e)))
        returns) := by
  refine ends_attempt env ⟨rfl, h tried ?_⟩ ?_ _ _ ty returns
  · simp [Form.children]
  · rw [List.forall₂_map_left_iff, List.forall₂_map_right_iff, List.forall₂_same]
    exact fun k hk => ⟨rfl, h _ (Form.mem_children_handler hk (List.mem_append_right _ (by simp)))⟩

section Form

variable {node : Nat} {form : Form Expr} (h : ∀ e ∈ form.children, env.EndsWell e)

include h

theorem ends_builtIn :
    Ends (builtIn env node (form.map fun e => (e, env.renderer e)))
      (DocEnding.asValue env node (form.map fun e => (e, env.ending e))) := by
  have hchild {e : Expr} (he : e ∈ form.children) :
      ChildEnds (e, env.renderer e) (e, env.ending e) :=
    ⟨rfl, h e he⟩
  cases form with
  | constant c => exact .pure rfl
  | parameter v =>
    have hempty : (Atoms.mention node v.writtenName).isEmpty = v.writtenName.isEmpty := by
      rw [Bool.eq_iff_iff]
      simp
    exact .pure (congrArg (fun b => (⟨b, false, false⟩ : DocEnding)) hempty)
  | binary op left right ty method =>
    show Ends (if op.isAssignment then _ else _) _
    split
    · exact ends_assignment env _ _ _ _ _
    · exact ends_binary env _ _ _ _ _
  | unary op operand ty method =>
    cases operand with
    | none => exact .pure (Doc.ending_of_ne_nil (by simp))
    | some c => exact ends_unary env (hchild (List.mem_singleton_self c)) op ty method
  | conditional test ifTrue ifFalse ty =>
    show Ends (if Node.isTernary ifTrue ifFalse ty then _ else _)
      (if Node.isTernary ifTrue ifFalse ty then _ else _)
    split
    · exact ends_ternary _ _ _ _
    · exact ends_ifStatement _ (hchild (by simp [Form.children])) (hchild (by simp [Form.children]))
        ty false
  | block locals expressions ty => exact ends_valueBlock env node locals (childrenEnd h) ty
  | lambda name parameters body returnType ty => exact ends_lambda env _ _ _ _ _
  | call receiver method args =>
    exact ends_call env _ method (childrenEnd fun e he => h e (List.mem_append_right _ he))
  | invoke target args ty => exact ends_invoke env _ _ _
  | member receiver info =>
    cases receiver with
    | none => exact .pure (Doc.ending_of_ne_nil (by simp))
    | some c => exact ends_memberAccess env (hchild (List.mem_singleton_self c)) info
  | new creation => exact ends_new env _
  | newArray elementType expressions bounds => exact ends_newArray env _ _ _
  | memberInit creation bindings => exact ends_memberInit env _ _
  | listInit creation items => exact ends_listInit env _ _
  | loop body breakTarget continueTarget => exact ends_loop env _ _ _
  | jump kind target result ty => exact ends_jump _ _ _ _
  | label target defaultValue => exact ends_label env target _ _ (by simp) _
  | switch subject cases defaultBody ty => exact endsAs_switch node h false
  | «try» tried handlers cleanup fault ty => exact endsAs_attempt h false
  | default ty =>
    show Ends (pure (defaultValue env ty)) (if ty.isVoid then _ else _)
    refine .pure ?_
    unfold defaultValue
    split
    · rfl
    · exact Doc.ending_of_ne_nil (by simp)
  | index object indexer args ty => exact ends_index _ _ _
  | typeTest expression tested exact => exact ends_typeTest env _ _ _
  | comment s => exact .pure rfl
  | extension name ty display operands =>
    have hends := ends_extension name ty display (operands.map fun e => (e, env.renderer e))
    rw [List.isEmpty_map] at hends
    show Ends _ (DocEnding.extension name display (operands.map fun e => (e, env.ending e)).isEmpty)
    rw [List.isEmpty_map]
    exact hends

variable (hcustom : env.settings.custom = [])

include hcustom

/-- Without custom renderers the value of a node is its built-in rendering. -/
theorem ends_asValue :
    Ends (asValue env node (form.map fun e => (e, env.renderer e)))
      (DocEnding.asValue env node (form.map fun e => (e, env.ending e))) := by
  unfold asValue
  rw [custom?_eq_none hcustom]
  exact ends_builtIn h

theorem ends_asStatement :
    Ends (asStatement env node (form.map fun e => (e, env.renderer e)))
      (DocEnding.asStatement env node (form.map fun e => (e, env.ending e))) := by
  unfold asStatement
  rw [custom?_eq_none hcustom]
  cases form with
  | block locals expressions ty => exact ends_nestedBlock env node locals (childrenEnd h) ty false
  | conditional test ifTrue ifFalse ty =>
    exact ends_ifStatement _ ⟨rfl, h ifTrue (by simp [Form.children])⟩
      ⟨rfl, h ifFalse (by simp [Form.children])⟩ ty false
  | _ => exact ends_asValue h hcustom

theorem ends_asReturning :
    Ends (asReturning env node (form.map fun e => (e, env.renderer e)))
      (DocEnding.asReturning env node (form.map fun e => (e, env.ending e))) := by
  have hsame : isNotReturned (form.map fun e => (e, env.renderer e)) =
      isNotReturned (form.map fun e => (e, env.ending e)) := by
    cases form <;> rfl
  have hvalue : Ends (do
      let d ← asValue env node (form.map fun e => (e, env.renderer e))
      return if isNotReturned (form.map fun e => (e, env.renderer e)) then d else d.returned)
      (if isNotReturned (form.map fun e => (e, env.ending e)) then
        DocEnding.asValue env node (form.map fun e => (e, env.ending e)) else .jump) := by
    refine (ends_asValue h hcustom).bind fun d hd => .pure ?_
    rw [hsame]
    split
    · exact hd
    · exact d.ending_returned
  unfold asReturning
  rw [custom?_eq_none hcustom]
  cases form with
  | block locals expressions ty => exact ends_nestedBlock env node locals (childrenEnd h) ty true
  | conditional test ifTrue ifFalse ty =>
    show Ends (if Node.isTernary ifTrue ifFalse ty then _ else _)
      (if Node.isTernary ifTrue ifFalse ty then _ else _)
    split
    · exact hvalue
    · exact ends_ifStatement _ ⟨rfl, h ifTrue (by simp [Form.children])⟩
        ⟨rfl, h ifFalse (by simp [Form.children])⟩ ty _
  | switch subject cases defaultBody ty => exact endsAs_switch node h _
  | «try» tried handlers cleanup fault ty => exact endsAs_attempt h _
  | label target defaultValue => exact ends_label env target _ _ (by simp) _
  | _ => exact hvalue

theorem ends_asBody (returns : Bool) :
    Ends (asBody env node (form.map fun e => (e, env.renderer e)) returns)
      (DocEnding.asBody env node (form.map fun e => (e, env.ending e)) returns) := by
  have hsingle : Ends (do
      let d ← if returns then asReturning env node (form.map fun e => (e, env.renderer e))
        else asStatement env node (form.map fun e => (e, env.renderer e))
      return (d.noted node).terminated)
      (if returns then DocEnding.asReturning env node (form.map fun e => (e, env.ending e))
        else DocEnding.asStatement env node (form.map fun e => (e, env.ending e))).terminated := by
    cases returns with
    | true =>
      refine (ends_asReturning h hcustom).bind fun d hd => .pure ?_
      rw [(d.noted node).ending_terminated, d.ending_noted, hd]
      rfl
    | false =>
      refine (ends_asStatement h hcustom).bind fun d hd => .pure ?_
      rw [(d.noted node).ending_terminated, d.ending_noted, hd]
      rfl
  have hnone : env.settings.custom? .block = none := by simp [Settings.custom?, hcustom]
  unfold asBody
  cases form with
  | block locals expressions ty =>
    dsimp only [Form.map]
    rw [hnone]
    refine (ends_blockStatements env node (childrenEnd h) ty _).bind fun d hd => .pure ?_
    rw [d.ending_noted, hd]
    rfl
  | _ => exact hsingle

end Form

theorem ending_notedValue {α : Type} (node : Nat) (form : Form α) (d : Doc) :
    (notedValue env node form d).ending = d.ending := by
  unfold notedValue
  split
  · rfl
  · exact d.ending_noted node

/-- **How a document ends can be told from the tree.** -/
theorem ending_renderer (hcustom : env.settings.custom = []) (e : Expr) : env.EndsWell e := by
  induction e using Node.induction with
  | h node form ih =>
    unfold EndsWell
    rw [renderer_mk, ending_mk]
    have hnoted {x : Rendering Doc} {ending : DocEnding} (h : Ends x ending) :
        Ends (Doc.noted node <$> x) ending :=
      h.map fun d hd => (d.ending_noted node).trans hd
    refine ⟨fun position => ?_, ends_asBody ih hcustom,
      fun returns => hnoted ?_, fun returns => hnoted ?_⟩
    · cases position with
      | value => exact (ends_asValue ih hcustom).map fun d hd => (ending_notedValue node _ d).trans hd
      | statement => exact hnoted (ends_asStatement ih hcustom)
      | returning => exact hnoted (ends_asReturning ih hcustom)
    · cases form with
      | conditional test ifTrue ifFalse ty =>
        exact ends_ifStatement _ ⟨rfl, ih ifTrue (by simp [Form.children])⟩
          ⟨rfl, ih ifFalse (by simp [Form.children])⟩ ty returns
      | _ => exact ends_asStatement ih hcustom
    · cases form with
      | label target defaultValue => exact ends_label env target _ _ (by simp) _
      | _ => exact ends_asReturning ih hcustom

end Env

end TreeScribe
