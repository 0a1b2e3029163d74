import TreeScribe.Proofs.Render.Depends
import TreeScribe.Proofs.Render.Laid
import TreeScribe.Source.Writer

/-! Custom renderers that answer.

Where a kind has a renderer that answers every node, what is written for a node of the kind is the
answer. It stands alone, after `return` or before a semicolon, and parents put it wherever they put
what is made of a node. The built-in renderer could be any other (`Settings.written_answered`).

A label at the end of a block whose value is returned is the exception. The block writes it itself, so
that its built-in renderer is kept there. -/
namespace TreeScribe

/-- Writes every node. -/
def CustomRenderer.Answers (r : CustomRenderer) : Prop :=
  ∀ e children typeName declared, ((r e children typeName).run declared).1.isSome = true

namespace Render

/-! ### One node -/

/-- The document that consists of what a custom renderer writes. -/
def answer (env : Env) (r : CustomRenderer) (node : Nat) (form : Form Child) : Rendering Doc := do
  let children : List (Rendering String) := form.children.map fun c => do
    return env.plainText (← value c)
  let s ← r (.mk node (form.map (·.1))) children env.settings.typeName
  return { kind := form.kind, ty := form.ty, atoms := Atoms.text (s.getD "") }

/-- What is made of a node when nothing but answers is written for a kind. Where no custom renderer is
asked, which is after an `else` and at the end of a block, there is anything else. -/
def answered (env : Env) (kind : NodeKind) (r : CustomRenderer)
    (other : Nat → Form Child → Bool → Rendering Doc) (node : Nat) (form : Form Child) : Renderer :=
  if form.kind = kind then
    let returned (d : Doc) : Doc := if isNotReturned form then d else d.returned
    { inPosition
        | .value => notedValue env node form <$> answer env r node form
        | .statement => Doc.noted node <$> answer env r node form
        | .returning => (fun d => (returned d).noted node) <$> answer env r node form
      body := fun returns => do
        let d ← answer env r node form
        return ((if returns then returned d else d).noted node).terminated
      chained := other node form
      landing := if kind = .label then (renderer env node form).landing else other node form
      -- An array that is passed element by element is not written itself.
      elements := asElements form }
  else renderer env node form

variable {env : Env} {kind : NodeKind} {r : CustomRenderer} {form : Form Child} (node : Nat)

theorem custom?_answers (hcustom : env.settings.custom? kind = some r) (hr : r.Answers)
    (hkind : form.kind = kind) : custom? env node form = some <$> answer env r node form := by
  subst hkind
  unfold custom? answer
  rw [hcustom]
  simp only [map_bind, map_pure]
  have hsome : ∀ o : Option String, o.isSome = true → ∀ declared : List Slot,
      ((o.map fun s => ({ kind := form.kind, ty := form.ty, atoms := Atoms.text s } : Doc)), declared) =
        (some { kind := form.kind, ty := form.ty, atoms := Atoms.text (o.getD "") }, declared) := by
    intro o ho declared
    cases o with
    | none => cases ho
    | some s => rfl
  funext declared
  exact hsome _ (hr _ _ _ declared) _

/-- A node of the kind is written as the answer in every position and as a body. -/
theorem renderer_answers (hcustom : env.settings.custom? kind = some r) (hr : r.Answers)
    (hkind : form.kind = kind) (other : Nat → Form Child → Bool → Rendering Doc) :
    (renderer env node form).inPosition = (answered env kind r other node form).inPosition ∧
      (renderer env node form).body = (answered env kind r other node form).body := by
  have hcustom? := custom?_answers node hcustom hr hkind
  have hstatement : asStatement env node form = answer env r node form := by
    simp only [asStatement, hcustom?, bind_map_left, bind_pure]
  have hreturning : asReturning env node form =
      (fun d => if isNotReturned form then d else d.returned) <$> answer env r node form := by
    simp only [asReturning, hcustom?, bind_map_left, bind_pure_comp]
  unfold answered
  rw [if_pos hkind]
  constructor
  · funext position
    cases position with
    | value => simp only [renderer, asValue, hcustom?, bind_map_left, bind_pure]
    | statement => simp only [renderer, hstatement]
    | returning => simp only [renderer, hreturning, Functor.map_map]
  · have hsingle (returns : Bool) :
        (do
          let d ← if returns then asReturning env node form else asStatement env node form
          return (d.noted node).terminated) =
        (do
          let d ← answer env r node form
          return ((if returns then if isNotReturned form then d else d.returned else d).noted
            node).terminated : Rendering Doc) := by
      rw [hstatement, hreturning]
      cases returns with
      | false => rfl
      | true => simp only [if_true, bind_map_left]
    funext returns
    refine Eq.trans ?_ (hsingle returns)
    show asBody env node form returns = _
    unfold asBody
    cases form with
    | block locals es ty =>
      have hblock : env.settings.custom? .block = some r := by rw [← hcustom, ← hkind]; rfl
      simp only [hblock, Option.isNone_some, Bool.false_eq_true, if_false]
    | _ => rfl

theorem answer_revised (R : Expr → Renderer) (form : Form Child) :
    answer env r node (form.map (revised R)) = answer env r node form := by
  have hform : (form.map (revised R)).map (·.1) = form.map (·.1) := Form.map_map _ _ form
  unfold answer
  simp only [hform, Form.children_map, Form.kind_map, Form.ty_map, List.map_map]
  rfl

/-- Nor do bodies, chains and landings of the children show in what is made of the node. -/
theorem answered_revised (env : Env) (r : CustomRenderer) (R : Expr → Renderer)
    (hkind : form.kind = kind) (other : Nat → Form Child → Bool → Rendering Doc) :
    let revised := answered env kind r other node (form.map (revised R))
    let plain := answered env kind r other node form
    revised.inPosition = plain.inPosition ∧ revised.body = plain.body ∧ revised.elements = plain.elements := by
  have hmapped : (form.map (revised R)).kind = kind := (Form.kind_map ..).trans hkind
  have hnoted : notedValue env node (form.map (revised R)) = notedValue env node form :=
    funext (notedValue_map env node (revised R) form)
  unfold answered
  rw [if_pos hmapped, if_pos hkind]
  simp only [answer_revised, isNotReturned_map, hnoted, asElements_revised, and_self]

/-! ### Trees -/

theorem kind_of_isLabel {e : Expr} (h : isLabel e = true) : e.kind = .label := by
  obtain ⟨node, form⟩ := e
  cases form with
  | label target defaultValue => rfl
  | _ => cases h

theorem kind_of_isChained {e : Expr} {returns : Bool} (h : isChained e returns = true) :
    e.kind = .conditional := by
  obtain ⟨node, form⟩ := e
  cases form with
  | conditional test ifTrue ifFalse ty => rfl
  | _ => cases h

end Render

namespace Env

/-- All that is made of a tree when nothing but answers is written for a kind. -/
def answered (env : Env) (kind : NodeKind) (r : CustomRenderer)
    (other : Nat → Form Render.Child → Bool → Rendering Doc) (e : Expr) : Renderer :=
  e.para (Render.answered env kind r other)

variable {env : Env} {kind : NodeKind} {r : CustomRenderer}

theorem answered_mk (other : Nat → Form Render.Child → Bool → Rendering Doc) (node : Nat)
    (form : Form Expr) :
    env.answered kind r other (.mk node form) =
      Render.answered env kind r other node (form.map fun c => (c, env.answered kind r other c)) :=
  Node.para_mk ..

/-- The same is made of a tree, but perhaps not where no custom renderer is asked. -/
structure SameAnswered (env : Env) (kind : NodeKind) (r : CustomRenderer)
    (other : Nat → Form Render.Child → Bool → Rendering Doc) (e : Expr) : Prop where
  inPosition : (env.answered kind r other e).inPosition = (env.renderer e).inPosition
  body : (env.answered kind r other e).body = (env.renderer e).body
  elements : (env.answered kind r other e).elements = (env.renderer e).elements
  chained : e.kind ≠ kind → (env.answered kind r other e).chained = (env.renderer e).chained
  landing : Render.isLabel e = true → (env.answered kind r other e).landing = (env.renderer e).landing

theorem sameAnswered (hcustom : env.settings.custom? kind = some r) (hr : r.Answers)
    (other : Nat → Form Render.Child → Bool → Rendering Doc) (e : Expr) :
    env.SameAnswered kind r other e := by
  induction e using Node.induction with
  | h node form ih =>
    have hplain : ∀ c ∈ form.children,
        (env.answered kind r other c).inPosition = (env.renderer c).inPosition ∧
          (env.answered kind r other c).elements = (env.renderer c).elements :=
      fun c hc => ⟨(ih c hc).inPosition, (ih c hc).elements⟩
    have hform (hkind : form.kind = kind → kind = .label) :
        Render.renderer env node (form.map fun c => (c, env.answered kind r other c)) =
          Render.renderer env node (form.map fun c => (c, env.renderer c)) := by
      refine Render.renderer_congr env node hplain (fun b hb => ?_) (fun c hc returns hchain => ?_)
        fun c hc hlabel => ?_
      · exact (ih b (Form.bodies_subset form hb)).body
      · -- Only a conditional wants a chain, and only of a conditional, so that it is asked first itself.
        refine (ih c (Form.alternative?_subset form hc)).chained fun hc' => ?_
        have hconditional := Render.kind_of_isChained hchain
        have hparent := Form.kind_of_alternative? form hc
        have hlabel := hkind (hparent.trans (hconditional.symm.trans hc'))
        rw [hlabel, hconditional] at hc'
        cases hc'
      · exact (ih c hc).landing hlabel
    by_cases hkind : form.kind = kind
    · have hmapped (T : Expr → Renderer) : (form.map fun c => (c, T c)).kind = kind :=
        (Form.kind_map ..).trans hkind
      obtain ⟨hposition, hbody⟩ :=
        Render.renderer_answers node hcustom hr (hmapped env.renderer) other
      obtain ⟨hposition', hbody', helements⟩ := Render.answered_revised node env r env.renderer
        (hmapped (env.answered kind r other)) other
      rw [Render.map_revised hplain] at hposition' hbody' helements
      refine ⟨?_, ?_, ?_, fun h => absurd hkind h, fun hlabel => ?_⟩
      · rw [renderer_mk, answered_mk, hposition, hposition']
      · rw [renderer_mk, answered_mk, hbody, hbody']
      · rw [renderer_mk, answered_mk, ← helements, Render.answered, if_pos (hmapped env.renderer)]
        rfl
      · have hkindLabel : kind = .label := hkind.symm.trans (Render.kind_of_isLabel hlabel)
        rw [renderer_mk, answered_mk, Render.answered, if_pos (hmapped (env.answered kind r other))]
        simp only [if_pos hkindLabel, hform fun _ => hkindLabel]
    · have hmade : (form.map fun c => (c, env.answered kind r other c)).kind ≠ kind := by
        rwa [Form.kind_map]
      have hsame : env.answered kind r other (.mk node form) = env.renderer (.mk node form) := by
        rw [renderer_mk, answered_mk, Render.answered, if_neg hmade, hform fun h => absurd h hkind]
      exact ⟨by rw [hsame], by rw [hsame], by rw [hsame], fun _ => by rw [hsame], fun _ => by rw [hsame]⟩

end Env

/-- A tree on its own, from all that is made of it. -/
def Renderer.root (made : Renderer) (e : Expr) : Rendering Doc :=
  if e.rendersAsStatements then made.body false else made.inPosition .value

/-- **A custom renderer that answers writes its kind alone.** Whatever the built-in renderers of the
kind are replaced by, the document of every expression and the body of every method stay as they are,
and in every position a node of the kind is the answer, perhaps returned or before a semicolon. Only the
label at the end of a block whose value is returned keeps its built-in renderer. -/
theorem Settings.written_answered (s : Settings) (kind : NodeKind) (r : CustomRenderer)
    (hcustom : s.custom? kind = some r) (hr : r.Answers)
    (other : Nat → Form Render.Child → Bool → Rendering Doc) :
    (∀ e, Doc.ofExpr s e = ((((Env.ofExpr s e).answered kind r other e).root e).run []).1) ∧
      ∀ (m : MethodModel) (calls : List (Nat × ExtractedCall)),
        let env : Env :=
          { settings := s, analysis := Analysis.ofMethodBody s m.body m.returnsValue, calls }
        m.bodyDoc s calls = (((env.answered kind r other m.body).body m.returnsValue).run []).1.braced := by
  constructor
  · intro e
    have henv : (Env.ofExpr s e).settings.custom? kind = some r := hcustom
    have hsame := Env.sameAnswered henv hr other e
    rw [Renderer.root, hsame.inPosition, hsame.body]
    rfl
  · intro m calls env
    have henv : env.settings.custom? kind = some r := hcustom
    rw [(Env.sameAnswered henv hr other m.body).body]
    rfl

/-- A loop that a custom renderer writes, on its own in the body of a lambda. -/
theorem Settings.written_answered_loop :
    let again : CustomRenderer := fun _ _ _ => return some "Again()"
    let s : Settings := { custom := [(.loop, again)] }
    let other : Nat → Form Render.Child → Bool → Rendering Doc := fun _ _ _ => return .absent .loop .void
    let looped : Expr := .mk 2 (.loop (.mk 3 (.comment "on")) none none)
    let e : Expr := .mk 0 (.lambda none [] (.mk 1 (.block [] [looped] .void)) .void .void)
    again.Answers ∧ s.custom? .loop = some again ∧
      Doc.ofExpr s e = ((((Env.ofExpr s e).answered .loop again other e).root e).run []).1 ∧
      (Rendered.ofExpr s e).text = "() =>\n\x7b\n    Again();\n\x7d" := by
  intro again s other looped e
  have hanswers : again.Answers := fun _ _ _ _ => rfl
  obtain ⟨hexpression, -⟩ := Settings.written_answered s .loop again rfl hanswers other
  refine ⟨hanswers, rfl, hexpression e, by decide +kernel⟩

end TreeScribe
