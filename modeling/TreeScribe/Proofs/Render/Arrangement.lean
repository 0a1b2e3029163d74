import TreeScribe.Proofs.Render.Arrangement.Initializers
import TreeScribe.Proofs.Render.Arrangement.Statements

/-! All that is made of a node has the marks of its pieces, with its own end after them
(`marks_renderer`). -/
namespace TreeScribe

namespace Env

open Render

section Form

variable {env : Env} (hcustom : env.settings.custom = []) (node : Nat) (form : Form Expr)

include hcustom

theorem adds_asValue :
    Adds env Doc.marks (asValue env node (form.map env.child)) []
      (Arrangement.asValue env node form) := by
  unfold asValue
  rw [custom?_eq_none hcustom]
  show Adds env Doc.marks (builtIn env node (form.map env.child)) [] _
  cases form with
  | constant c => exact .pure (marks_literal env _ _)
  | parameter v =>
    intro declared
    rw [Arrangement.asValue, env.marksOf_one]
    exact ⟨Atoms.marks_mention .., rfl⟩
  | binary op left right ty method =>
    show Adds env Doc.marks (if op.isAssignment then _ else _) [] (if op.isAssignment then _ else _)
    split
    · exact adds_assignment env node op left right ty
    · exact adds_binary env op left right ty method
  | unary op operand ty method => exact adds_unary env op operand ty method
  | conditional test ifTrue ifFalse ty =>
    show Adds env Doc.marks (if Node.isTernary ifTrue ifFalse ty then _ else _) []
      (if Node.isTernary ifTrue ifFalse ty then _ else _)
    split
    · exact adds_ternary env test ifTrue ifFalse ty
    · exact adds_ifStatement env test ifTrue ifFalse ty false
  | block locals expressions ty =>
    exact adds_valueBlock (fun e _ => ending_renderer hcustom e) node locals ty
  | lambda name parameters lambdaBody returnType ty =>
    exact adds_lambda env node parameters lambdaBody returnType ty
  | call receiver method args => exact adds_call env receiver method args
  | invoke target args ty => exact adds_invoke env target args ty
  | member receiver info => exact adds_memberAccess env receiver info
  | new creation => exact adds_new env creation
  | newArray elementType expressions bounds => exact adds_newArray env elementType expressions bounds
  | memberInit creation bindings => exact adds_memberInit env creation bindings
  | listInit creation items => exact adds_listInit env creation items
  | loop loopBody breakTarget continueTarget => exact adds_loop env node loopBody breakTarget
  | jump kind target result ty => exact adds_jump env kind target result ty
  | label target defaultValue =>
    have hlabel := adds_label env target defaultValue false
    rwa [Arrangement.label, if_neg Bool.false_ne_true, List.append_nil] at hlabel
  | switch subject cases defaultBody ty => exact adds_switch env node subject cases defaultBody ty false
  | «try» tried handlers cleanup fault ty =>
    exact adds_attempt env tried handlers cleanup fault ty false
  | default ty =>
    refine .pure ?_
    unfold defaultValue
    split
    · rfl
    · simp [Doc.marks, Env.typeName]
  | index object indexer args ty => exact adds_index env object args ty
  | typeTest expression tested exact => exact adds_typeTest env expression tested exact
  | comment s => exact .pure (marks_commentLines _)
  | extension name ty display operands => exact adds_extension env name ty display operands

theorem adds_asStatement :
    Adds env Doc.marks (asStatement env node (form.map env.child)) []
      (Arrangement.asStatement env node form) := by
  have hvalue := adds_asValue hcustom node form
  unfold asStatement
  rw [custom?_eq_none hcustom]
  cases form with
  | block locals expressions ty =>
    exact adds_nestedBlock (fun e _ => ending_renderer hcustom e) node locals ty false
  | conditional test ifTrue ifFalse ty => exact adds_ifStatement env test ifTrue ifFalse ty false
  | _ => exact hvalue

theorem adds_asReturning :
    Adds env Doc.marks (asReturning env node (form.map env.child)) []
      (Arrangement.asReturning env node form) := by
  have hvalue : Adds env Doc.marks (do
      let d ← asValue env node (form.map env.child)
      return if isNotReturned (form.map env.child) then d else d.returned) []
      (Arrangement.asValue env node form) := by
    refine (adds_asValue hcustom node form).last fun d => ?_
    split <;> simp
  unfold asReturning
  rw [custom?_eq_none hcustom]
  cases form with
  | block locals expressions ty =>
    exact adds_nestedBlock (fun e _ => ending_renderer hcustom e) node locals ty true
  | conditional test ifTrue ifFalse ty =>
    show Adds env Doc.marks (if Node.isTernary ifTrue ifFalse ty then _ else _) []
      (if Node.isTernary ifTrue ifFalse ty then _ else _)
    split
    · exact hvalue
    · exact adds_ifStatement env test ifTrue ifFalse ty _
  | switch subject cases defaultBody ty => exact adds_switch env node subject cases defaultBody ty _
  | «try» tried handlers cleanup fault ty => exact adds_attempt env tried handlers cleanup fault ty _
  | label target defaultValue => exact adds_label env target defaultValue true
  | _ => exact hvalue

omit hcustom in
/-- A document of the node ends with its note, unless it is empty. -/
theorem adds_noted {x : Rendering Doc} {steps : List Step} {mode : Mode} (hmode : mode ≠ .elements)
    (hcalled : (mode == .inPosition .value && isCalled env node form) = false) (hx : Adds env Doc.marks x [] steps)
    (hends : Ends (Doc.noted node <$> x) (env.ending (.mk node form) (Arrangement.ownMode form mode))) :
    Adds env Doc.marks (Doc.noted node <$> x) [] (steps ++ Arrangement.ended env node form mode) := by
  have hempty : Gives x fun d =>
      d.isEmpty = (env.ending (.mk node form) (Arrangement.ownMode form mode)).isEmpty :=
    fun declared => congrArg DocEnding.isEmpty ((Doc.ending_noted _ node).symm.trans (hends declared))
  rw [map_eq_pure_bind]
  refine hx.append_of hempty fun d hd => ?_
  have hnoted : Arrangement.isNoted env node form mode = !d.isEmpty := by
    rw [Arrangement.isNoted, hcalled, ← hd, bne_iff_ne.mpr hmode, Bool.true_and, Bool.not_false,
      Bool.and_true]
  rw [Arrangement.ended, hnoted, List.nil_append]
  cases hisEmpty : d.isEmpty with
  | true => exact .pure (by rw [Doc.marks_noted, hisEmpty, if_pos rfl, List.append_nil])
  | false => exact .note (.pure (by rw [Doc.marks_noted, hisEmpty]; rfl))

theorem ends_mk :
    EndsAs (Render.renderer env node (form.map env.child)) (env.ending (.mk node form)) := by
  have hends : EndsAs (env.renderer (.mk node form)) (env.ending (.mk node form)) :=
    ending_renderer hcustom (.mk node form)
  rwa [renderer_mk] at hends

theorem adds_asBody (returns : Bool) :
    Adds env Doc.marks (asBody env node (form.map env.child) returns) []
      (Arrangement.ofNode env node form (.body returns)) := by
  have hends := ends_mk hcustom node form
  have hsingle (hown : Arrangement.ownMode form (.body returns) = .inPosition (Position.ofBody returns)) :
      Adds env Doc.marks (do
        let d ← if returns then asReturning env node (form.map env.child)
          else asStatement env node (form.map env.child)
        return (d.noted node).terminated) [] (Arrangement.ofNode env node form (.body returns)) := by
    have hown' : Arrangement.ended env node form (.body returns) =
        Arrangement.ended env node form (.inPosition (Position.ofBody returns)) := by
      unfold Arrangement.ended Arrangement.isNoted
      rw [hown]
      cases returns <;> rfl
    rw [Arrangement.ofNode, hown']
    cases returns with
    | true =>
      have hnoted : Adds env (fun d => (d.noted node).marks) (asReturning env node (form.map env.child)) []
          (Arrangement.ofNode env node form (.inPosition .returning)) :=
        adds_noted node form (by decide) rfl (adds_asReturning hcustom node form) (hends.inPosition .returning)
      exact hnoted.map fun d => (d.noted node).marks_terminated
    | false =>
      have hnoted : Adds env (fun d => (d.noted node).marks) (asStatement env node (form.map env.child)) []
          (Arrangement.ofNode env node form (.inPosition .statement)) :=
        adds_noted node form (by decide) rfl (adds_asStatement hcustom node form) (hends.inPosition .statement)
      exact hnoted.map fun d => (d.noted node).marks_terminated
  have hnone : env.settings.custom? .block = none := by simp [Settings.custom?, hcustom]
  have hbody := hends.body returns
  cases form with
  | block locals expressions ty =>
    have hstatements : Adds env Doc.marks
        (blockStatements env node (expressions.map env.child) ty (BlockRole.ofBody returns)) []
        (Arrangement.ofForm env node (.block locals expressions ty) (.body returns)) := by
      cases returns with
      | true => exact adds_blockStatements (fun e _ => ending_renderer hcustom e) node ty .return
      | false => exact adds_blockStatements (fun e _ => ending_renderer hcustom e) node ty .discard
    have hbuilt : asBody env node ((Form.block locals expressions ty).map env.child) returns =
        Doc.noted node <$>
          blockStatements env node (expressions.map env.child) ty (BlockRole.ofBody returns) := by
      unfold asBody
      dsimp only [Form.map]
      rw [hnone, map_eq_pure_bind]
      rfl
    rw [hbuilt]
    refine adds_noted node _ Mode.noConfusion rfl hstatements ?_
    rw [← hbuilt]
    exact hbody
  | _ => exact hsingle rfl

/-- **The marks of what is made of a node are those of its pieces, and its end.** -/
theorem marks_renderer (mode : Mode) :
    (env.renderer (.mk node form)).marks mode =
      env.marksOf (Arrangement.ofNode env node form mode) := by
  have heq {α : Type} {μ : α → List Atom} {x : Rendering α} {steps : List Step}
      (h : Adds env μ x [] steps) : μ <$> x = env.marksOf steps :=
    StateT.ext fun declared => Prod.ext (h declared).1 (h declared).2
  have hends := ends_mk hcustom node form
  rw [renderer_mk]
  cases mode with
  | inPosition position =>
    cases position with
    | value =>
      have hvalue := adds_asValue hcustom node form
      have hsame : isCalled env node (form.map env.child) = isCalled env node form := by
        cases form <;> rfl
      have hends : Ends (notedValue env node (form.map env.child) <$> _) _ := hends.inPosition .value
      show Doc.marks <$> notedValue env node (form.map env.child) <$> _ = _
      cases hcalled : isCalled env node form with
      | true =>
        have hplain : notedValue env node (form.map env.child) = id := by
          funext d
          rw [notedValue, hsame, if_pos hcalled, id]
        have hnone : Arrangement.ended env node form (.inPosition .value) = [] := by
          simp [Arrangement.ended, Arrangement.isNoted, hcalled]
        rw [Arrangement.ofNode, hnone, List.append_nil, hplain, id_map]
        exact heq hvalue
      | false =>
        have hnoted : notedValue env node (form.map env.child) = Doc.noted node := by
          funext d
          rw [notedValue, hsame, hcalled, if_neg Bool.false_ne_true]
        rw [hnoted] at hends ⊢
        exact heq (adds_noted node form nofun (by rw [hcalled, Bool.and_false]) hvalue hends)
    | statement =>
      exact heq (adds_noted node form nofun rfl (adds_asStatement hcustom node form) (hends.inPosition .statement))
    | returning =>
      exact heq (adds_noted node form nofun rfl (adds_asReturning hcustom node form) (hends.inPosition .returning))
  | body returns => exact heq (adds_asBody hcustom node form returns)
  | chained returns =>
    have hstatement := adds_asStatement hcustom node form
    refine heq (adds_noted node form nofun rfl (x := asChained env node (form.map env.child) returns) ?_
      (hends.chained returns))
    cases form with
    | conditional test ifTrue ifFalse ty => exact adds_ifStatement env test ifTrue ifFalse ty returns
    | _ => exact hstatement
  | landing returns =>
    have hreturning := adds_asReturning hcustom node form
    refine heq (adds_noted node form nofun rfl (x := asLanding env node (form.map env.child) returns) ?_
      (hends.landing returns))
    cases form with
    | label target defaultValue => exact adds_label env target defaultValue returns
    | _ => exact hreturning
  | elements =>
    rw [Arrangement.ofNode, Arrangement.ended, if_neg (by simp [Arrangement.isNoted]), List.append_nil]
    refine heq (?_ : Adds env (List.flatMap Doc.marks) (asElements (form.map env.child)) [] _)
    cases form with
    | newArray elementType expressions bounds => exact adds_values env expressions
    | _ => exact .pure rfl

end Form

end Env

end TreeScribe
