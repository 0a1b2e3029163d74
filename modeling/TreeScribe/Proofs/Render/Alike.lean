import TreeScribe.Proofs.Render.Alike.Control
import TreeScribe.Proofs.Render.Alike.Initializers

/-! Rendering a tree and its twin.

A tree is rendered in one environment, and the same tree under other labels in another. If the pieces
of a node agree with those of its twin, then what is made of the two agrees (`Twins.made_ofForm`). -/
namespace TreeScribe

open Atoms Render

namespace Twins

variable {T : Twins} {d d' : Doc}

/-- What rendering looks up for a node on its own account is the same for its twin. -/
def SameLookups (T : Twins) (node : Nat) : Form Expr → Prop
  | .block _ _ _ =>
    T.other.blockDeclarations (T.label node) = T.analysis.blockDeclarations node ∧
      T.calls.lookup (T.label node) = T.calls.lookup node
  | .lambda _ parameters _ _ _ =>
    ∀ v ∈ parameters, T.other.isParameterUsed (T.label node) v = T.analysis.isParameterUsed node v
  | .try _ handlers _ _ _ =>
    ∀ h ∈ handlers, ∀ v ∈ h.caught,
      T.other.isCaughtUsed (T.label h.body.label) v = T.analysis.isCaughtUsed h.body.label v
  | _ => True

section Form

variable {node : Nat} {form : Form Expr} (hlookups : T.SameLookups node form)
include hlookups

theorem Part.notedValue (h : T.Part d d') :
    T.Part (Render.notedValue T.env node (form.map T.child) d)
      (Render.notedValue T.twin (T.label node) (form.map T.twinOf) d') := by
  have hcalled : isCalled T.twin (T.label node) (form.map T.twinOf) =
      isCalled T.env node (form.map T.child) := by
    cases form with
    | block locals es ty => exact congrArg Option.isSome hlookups.2
    | _ => rfl
  unfold Render.notedValue
  rw [hcalled]
  split
  · exact h
  · exact h.noted _ _

theorem alike_asValue (h : T.AgreesOn (Arrangement.asValue T.env node form)) :
    Alike T.Part (asValue T.env node (form.map T.child))
      (asValue T.twin (T.label node) (form.map T.twinOf)) := by
  have hends (e : Expr) : T.env.EndsWell e := Env.ending_renderer T.custom e
  unfold asValue
  rw [Env.custom?_eq_none T.custom, Env.custom?_eq_none T.custom]
  show Alike T.Part (builtIn T.env node (form.map T.child))
    (builtIn T.twin (T.label node) (form.map T.twinOf))
  cases form with
  | constant c => exact .pure (part_literal _ _)
  | parameter v => exact .pure ⟨⟨rfl, rfl, rfl, rfl, rfl⟩, h.one⟩
  | binary op left right ty method =>
    unfold Arrangement.asValue at h
    dsimp only [Form.map, builtIn] at h ⊢
    split at h
    next hop =>
      rw [if_pos hop, if_pos hop]
      exact alike_assignment op ty h
    next hop =>
      rw [if_neg hop, if_neg hop]
      obtain ⟨hl, hr⟩ := AgreesOn.cons_iff.mp h
      exact alike_binary hl hr op ty method
  | unary op operand ty method => exact alike_unary op operand ty method h
  | conditional test ifTrue ifFalse ty =>
    unfold Arrangement.asValue at h
    dsimp only [Form.map, builtIn] at h ⊢
    rw [Node.isTernary_relabel]
    split at h
    next hternary =>
      rw [if_pos hternary, if_pos hternary]
      exact alike_ternary ty h
    next hternary =>
      rw [if_neg hternary, if_neg hternary]
      exact alike_ifStatement ty h
  | block locals es ty => exact alike_valueBlock hlookups.1 (fun e _ => hends e) hlookups.2 locals ty h
  | lambda name parameters lambdaBody returnType ty => exact alike_lambda returnType ty hlookups h
  | call receiver method args => exact alike_call receiver method h
  | invoke target args ty => exact alike_invoke ty h
  | member receiver info => exact alike_memberAccess receiver info h
  | new creation => exact alike_new h
  | newArray elementType expressions bounds => exact alike_newArray elementType bounds h
  | memberInit creation bindings => exact alike_memberInit h
  | listInit creation items => exact alike_listInit h
  | loop loopBody breakTarget continueTarget => exact alike_loop node breakTarget (AgreesOn.append_iff.mp h).1.enclosed
  | jump kind target result ty => exact alike_jump kind target ty h
  | label target defaultValue => exact alike_label target (AgreesOn.append_iff.mpr ⟨h, nofun⟩)
  | switch subject cases defaultBody ty => exact alike_switch node ty h
  | «try» tried handlers cleanup fault ty => exact alike_attempt ty hlookups h
  | default ty => exact .pure (part_defaultValue ty)
  | index object indexer args ty => exact alike_index ty h
  | typeTest expression tested exact => exact alike_typeTest h tested exact
  | comment s => exact .pure ⟨⟨rfl, rfl, rfl, rfl, rfl⟩, matches_commentLines _⟩
  | extension name ty display operands => exact alike_extension name ty display h

/-- A statement that is not a block is a part like any other. -/
theorem alike_asStatement_part (hblock : ∀ locals es ty, form ≠ .block locals es ty)
    (h : T.AgreesOn (Arrangement.asStatement T.env node form)) :
    Alike T.Part (asStatement T.env node (form.map T.child))
      (asStatement T.twin (T.label node) (form.map T.twinOf)) := by
  have hvalue := alike_asValue hlookups
  unfold asStatement
  rw [Env.custom?_eq_none T.custom, Env.custom?_eq_none T.custom]
  cases form with
  | block locals es ty => exact absurd rfl (hblock locals es ty)
  | conditional test ifTrue ifFalse ty => exact alike_ifStatement ty h
  | _ => exact hvalue h

theorem alike_asStatement (h : T.AgreesOn (Arrangement.asStatement T.env node form)) :
    Alike T.Statement (asStatement T.env node (form.map T.child))
      (asStatement T.twin (T.label node) (form.map T.twinOf)) := by
  have hends (e : Expr) : T.env.EndsWell e := Env.ending_renderer T.custom e
  have hpart (hblock : ∀ locals es ty, form ≠ .block locals es ty) :
      Alike T.Statement (asStatement T.env node (form.map T.child))
        (asStatement T.twin (T.label node) (form.map T.twinOf)) :=
    (alike_asStatement_part hlookups hblock h).mono fun d d' hd => .part hd
  cases form with
  | block locals es ty =>
    unfold asStatement
    rw [Env.custom?_eq_none T.custom, Env.custom?_eq_none T.custom]
    exact alike_nestedBlock hlookups.1 (fun e _ => hends e) locals ty false h
  | _ => exact hpart nofun

theorem alike_asReturning (h : T.AgreesOn (Arrangement.asReturning T.env node form)) :
    Alike T.Statement (asReturning T.env node (form.map T.child))
      (asReturning T.twin (T.label node) (form.map T.twinOf)) := by
  have hends (e : Expr) : T.env.EndsWell e := Env.ending_renderer T.custom e
  have hvalue (h : T.AgreesOn (Arrangement.asValue T.env node form)) :
      Alike T.Statement (do
          let d ← asValue T.env node (form.map T.child)
          return if isNotReturned (form.map T.child) then d else d.returned)
        (do
          let d ← asValue T.twin (T.label node) (form.map T.twinOf)
          return if isNotReturned (form.map T.twinOf) then d else d.returned) := by
    rw [isNotReturned_map, isNotReturned_map]
    refine (alike_asValue hlookups h).last fun d d' hd => ?_
    split
    · exact .part hd
    · exact .part hd.returned
  unfold asReturning
  rw [Env.custom?_eq_none T.custom, Env.custom?_eq_none T.custom]
  cases form with
  | block locals es ty =>
    exact alike_nestedBlock hlookups.1 (fun e _ => hends e) locals ty true h
  | conditional test ifTrue ifFalse ty =>
    unfold Arrangement.asReturning at h
    simp only [pure_bind]
    dsimp only [Form.map] at h ⊢
    rw [Node.isTernary_relabel]
    split at h
    next hternary =>
      rw [if_pos hternary, if_pos hternary]
      exact hvalue h
    next hternary =>
      rw [if_neg hternary, if_neg hternary]
      exact (alike_ifStatement ty h).mono fun d d' hd => .part hd
  | switch subject cases defaultBody ty => exact (alike_switch node ty h).mono fun d d' hd => .part hd
  | «try» tried handlers cleanup fault ty =>
    exact (alike_attempt ty hlookups h).mono fun d d' hd => .part hd
  | label target defaultValue => exact (alike_label target h).mono fun d d' hd => .part hd
  | _ => exact hvalue h

theorem alike_asBody (returns : Bool)
    (h : T.AgreesOn (Arrangement.ofForm T.env node form (.body returns))) :
    Alike T.Body (asBody T.env node (form.map T.child) returns)
      (asBody T.twin (T.label node) (form.map T.twinOf) returns) := by
  have hends (e : Expr) : T.env.EndsWell e := Env.ending_renderer T.custom e
  have hsingle : Alike T.Body
      (do
        let d ← if returns then asReturning T.env node (form.map T.child)
          else asStatement T.env node (form.map T.child)
        return (d.noted node).terminated)
      (do
        let d ← if returns then asReturning T.twin (T.label node) (form.map T.twinOf)
          else asStatement T.twin (T.label node) (form.map T.twinOf)
        return (d.noted (T.label node)).terminated) := by
    cases returns with
    | true => exact (alike_asReturning hlookups h).last fun d d' hd => (hd.noted _ _).terminated
    | false => exact (alike_asStatement hlookups h).last fun d d' hd => (hd.noted _ _).terminated
  have hnone : T.settings.custom? .block = none := by simp [Settings.custom?, T.custom]
  unfold asBody
  cases form with
  | block locals es ty =>
    dsimp only [Form.map]
    rw [settings_env, settings_twin, hnone]
    cases returns with
    | true =>
      exact (alike_blockStatements hlookups.1 (fun e _ => hends e) ty .return h).last
        fun d d' hd => hd.1.noted _ _
    | false =>
      exact (alike_blockStatements hlookups.1 (fun e _ => hends e) ty .discard h).last
        fun d d' hd => hd.1.noted _ _
  | _ => exact hsingle

theorem alike_asChained (hblock : ∀ locals es ty, form ≠ .block locals es ty) (returns : Bool)
    (h : T.AgreesOn (Arrangement.ofForm T.env node form (.chained returns))) :
    Alike T.Part (asChained T.env node (form.map T.child) returns)
      (asChained T.twin (T.label node) (form.map T.twinOf) returns) := by
  have hstatement := alike_asStatement_part hlookups hblock
  cases form with
  | conditional test ifTrue ifFalse ty => exact alike_ifStatement ty h
  | _ => exact hstatement h

/-- **If the pieces of a node agree with those of its twin, so does what is made of it.** A node that
follows an `else` is not a block. -/
theorem made_ofForm {mode : Mode}
    (hchained : ∀ returns, mode = .chained returns → ∀ locals es ty, form ≠ .block locals es ty)
    (h : T.AgreesOn (Arrangement.ofForm T.env node form mode)) :
    T.Made mode (T.env.renderer (.mk node form))
      (T.twin.renderer ((Node.mk node form : Expr).relabel T.label)) := by
  rw [Node.relabel_mk, Env.renderer_mk, Env.renderer_mk, Form.map_map]
  cases mode with
  | inPosition position =>
    cases position with
    | value => exact (alike_asValue hlookups h).last fun d d' hd => hd.notedValue hlookups
    | statement => exact (alike_asStatement hlookups h).last fun d d' hd => hd.noted _ _
    | returning => exact (alike_asReturning hlookups h).last fun d d' hd => hd.noted _ _
  | body returns => exact alike_asBody hlookups returns h
  | chained returns =>
    exact (alike_asChained hlookups (hchained returns rfl) returns h).last
      fun d d' hd => hd.noted _ _
  | landing returns =>
    have hlanding : Alike T.Statement (asLanding T.env node (form.map T.child) returns)
        (asLanding T.twin (T.label node) (form.map T.twinOf) returns) := by
      have hreturning := alike_asReturning hlookups
      cases form with
      | label target defaultValue => exact (alike_label target h).mono fun d d' hd => .part hd
      | _ => exact hreturning h
    exact hlanding.last fun d d' hd => hd.noted _ _
  | elements =>
    show Alike (List.Forall₂ T.Part) (asElements (form.map T.child)) (asElements (form.map T.twinOf))
    cases form with
    | newArray elementType expressions bounds => exact alike_values h
    | _ => exact .pure .nil

end Form

end Twins

end TreeScribe
