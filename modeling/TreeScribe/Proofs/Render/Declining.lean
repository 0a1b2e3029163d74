import TreeScribe.Proofs.Render.Depends
import TreeScribe.Proofs.Render.Operand
import TreeScribe.Proofs.Render.Style
import TreeScribe.Proofs.Source.Extraction

/-! Custom renderers that decline.

A renderer that declines leaves a node to the built-in ones, and nothing changes, with two exceptions.
It may ask for the texts of the children before it declines, and then the variables that these declare
count as declared. And that blocks have a custom renderer is enough for a body that is a block to be
rendered as a statement; there a block with variables stands in braces, also where it has braces of its
own already (`Render.asBody_declining`). Elsewhere the same is written (`Settings.written_declining`). -/
namespace TreeScribe

/-- Writes no node. -/
def CustomRenderer.Declines (r : CustomRenderer) : Prop :=
  ∀ e children typeName declared, ((r e children typeName).run declared).1 = none

/-- Declares no variable, as a renderer that asks for no texts. -/
def CustomRenderer.IsIdle (r : CustomRenderer) : Prop :=
  ∀ e children typeName declared, ((r e children typeName).run declared).2 = declared

/-- A block with variables of its own. -/
def Form.hasLocals {α : Type} : Form α → Bool
  | .block locals _ _ => !locals.isEmpty
  | _ => false

namespace Env

/-- Asking the custom renderers about the nodes of a tree declares no variable. -/
def AsksIdly (env : Env) (e : Expr) : Prop :=
  ∀ x ∈ e.nodes, ∀ declared,
    ((Render.custom? env x.label (x.form.map fun c => (c, env.renderer c))).run declared).2 = declared

/-- Below a tree no block with variables is wanted as a body, or blocks have no custom renderer. -/
def KeepsBodies (env : Env) (e : Expr) : Prop :=
  env.settings.custom? .block = none ∨ ∀ x ∈ e.nodes, ∀ b ∈ x.form.bodies, b.form.hasLocals = false

/-- A tree that is a body is no block with variables, or blocks have no custom renderer. -/
def KeepsBody (env : Env) (e : Expr) : Prop :=
  env.settings.custom? .block = none ∨ e.form.hasLocals = false

/-- The trees for which it does not show that custom renderers were asked and declined. -/
structure Undisturbed (env : Env) (e : Expr) : Prop where
  asksIdly : env.AsksIdly e
  keepsBodies : env.KeepsBodies e
  keepsBody : env.KeepsBody e

theorem asksIdly_of_isIdle {env : Env} (h : ∀ c ∈ env.settings.custom, c.2.IsIdle) (e : Expr) :
    env.AsksIdly e := by
  intro x _ declared
  unfold Render.custom?
  cases hfound : env.settings.custom? (x.form.map fun c => (c, env.renderer c)).kind with
  | none => rfl
  | some r => exact h _ (mem_of_lookup hfound) _ _ _ declared

end Env

namespace Render

/-! ### One node -/

variable {env : Env} {t : Settings} {node : Nat}

theorem custom?_declining (hcustom : env.settings.custom = [])
    (hdecline : ∀ c ∈ t.custom, c.2.Declines) {f : Form Child}
    (hidle : ∀ declared, ((custom? (env.restyled t) node f).run declared).2 = declared) :
    custom? (env.restyled t) node f = custom? env node f := by
  rw [Env.custom?_eq_none hcustom]
  have hnone (declared : List Slot) : ((custom? (env.restyled t) node f).run declared).1 = none := by
    have hlookup : (env.restyled t).settings.custom? f.kind = t.custom.lookup f.kind := rfl
    unfold custom?
    rw [hlookup]
    cases hfound : t.custom.lookup f.kind with
    | none => rfl
    | some r => exact congrArg (Option.map _) (hdecline (f.kind, r) (mem_of_lookup hfound) _ _ _ declared)
  funext declared
  exact Prod.ext (hnone declared) (hidle declared)

/-- The statements of a block are complete, as every list of statements is. -/
theorem terminated_blockStatements (es : List Child) (ty : TypeRef) (role : BlockRole) :
    (fun d => (d.noted node).terminated) <$> blockStatements env node es ty role =
      Doc.noted node <$> blockStatements env node es ty role := by
  have hjoined (declared statements : List Doc) :
      ((joinStatements ty declared statements).noted node).terminated =
        (joinStatements ty declared statements).noted node := by
    unfold Doc.noted
    split <;> rfl
  unfold blockStatements
  simp only [map_bind, map_pure, hjoined]

/-- What changes where a body is a block: it stands in braces if it has variables. -/
theorem asBody_declining {locals : List Variable} {es : List Child} {ty : TypeRef}
    (hnone : custom? (env.restyled t) node (.block locals es ty) = return none)
    (hblock : (t.custom? .block).isSome = true) (returns : Bool) :
    asBody (env.restyled t) node (.block locals es ty) returns =
      (fun d => ((if locals.isEmpty then d else d.braced).noted node).terminated) <$>
        blockStatements env node es ty (BlockRole.ofBody returns) := by
  have hregistered : ((env.restyled t).settings.custom? .block).isNone = false :=
    Option.isNone_eq_false_iff.mpr hblock
  have hstatements : blockStatements (env.restyled t) = blockStatements env := rfl
  simp only [asBody, hregistered, asStatement, asReturning, hnone, pure_bind, nestedBlock, hstatements,
    Bool.false_eq_true, if_false]
  cases returns <;> simp only [if_true, Bool.false_eq_true, if_false, bind_assoc, pure_bind] <;> rfl

theorem asBody_kept (hcustom : env.settings.custom = []) {f : Form Child}
    (hsame : custom? (env.restyled t) node f = custom? env node f)
    (hkeeps : t.custom? .block = none ∨ f.hasLocals = false) :
    asBody (env.restyled t) node f = asBody env node f := by
  have hplain : env.settings.custom? .block = none := by
    rw [Settings.custom?, hcustom]
    rfl
  cases hblock : t.custom? .block with
  | none => exact asBody_restyled hsame (by rw [hblock, hplain])
  | some r =>
    have hlocals : f.hasLocals = false := hkeeps.resolve_left (by simp [hblock])
    cases f with
    | block locals es ty =>
      have hempty : locals.isEmpty = true := by simpa [Form.hasLocals] using hlocals
      have hnone : custom? (env.restyled t) node (.block locals es ty) = return none :=
        hsame.trans (Env.custom?_eq_none hcustom ..)
      funext returns
      rw [asBody_declining hnone (by rw [hblock]; rfl), hempty]
      simp only [asBody, hplain, Option.isNone_none, if_true]
      exact terminated_blockStatements es ty _
    | _ =>
      funext returns
      simp only [asBody, asStatement_restyled hsame, asReturning_restyled hsame]

/-! ### Trees -/

/-- The same is made of a tree, and the same body unless it is a block with variables. -/
theorem renderer_declining (hcustom : env.settings.custom = []) (hdecline : ∀ c ∈ t.custom, c.2.Declines)
    {e : Expr} (hidle : (env.restyled t).AsksIdly e) (hbodies : (env.restyled t).KeepsBodies e) :
    (env.restyled t).renderer e =
        { env.renderer e with body := ((env.restyled t).renderer e).body } ∧
      ((env.restyled t).KeepsBody e → ((env.restyled t).renderer e).body = (env.renderer e).body) := by
  induction e using Node.induction with
  | h node f ih =>
    have hsame : custom? (env.restyled t) node (f.map fun c => (c, (env.restyled t).renderer c)) =
        custom? env node (f.map fun c => (c, (env.restyled t).renderer c)) :=
      custom?_declining hcustom hdecline (hidle _ (Node.mem_nodes_self _))
    have hchild {c : Expr} (hc : c ∈ f.children) := ih c hc
      (fun x hx => hidle x (Node.mem_nodes_of_mem hc hx))
      (hbodies.imp id fun h x hx => h x (Node.mem_nodes_of_mem hc hx))
    have hroot {b : Expr} (hb : b ∈ f.bodies) : (env.restyled t).KeepsBody b :=
      hbodies.imp id fun h => h _ (Node.mem_nodes_self _) b hb
    have hform : renderer env node (f.map fun c => (c, (env.restyled t).renderer c)) =
        renderer env node (f.map fun c => (c, env.renderer c)) := by
      refine renderer_congr env node (fun c hc => ?_) (fun b hb => ?_) (fun c hc _ _ => ?_) fun c hc _ => ?_
      · rw [(hchild hc).1]
        exact ⟨rfl, rfl⟩
      · exact (hchild (Form.bodies_subset f hb)).2 (hroot hb)
      · rw [(hchild (Form.alternative?_subset f hc)).1]
      · rw [(hchild hc).1]
    rw [Env.renderer_mk, Env.renderer_mk]
    constructor
    · rw [renderer_restyled hsame, hform]
    · intro hkeeps
      have hlocals : (f.map fun c => (c, (env.restyled t).renderer c)).hasLocals = f.hasLocals := by
        cases f <;> rfl
      show asBody (env.restyled t) node _ = (renderer env node _).body
      rw [← hform]
      exact asBody_kept hcustom hsame (hlocals ▸ hkeeps)

end Render

/-! ### Texts -/

section Texts

variable {s : Settings} (hplain : s.custom = []) {custom : List (NodeKind × CustomRenderer)}
  (hdecline : ∀ c ∈ custom, c.2.Declines)
include hplain hdecline

theorem Doc.ofExpr_declining {e : Expr} (h : (Env.ofExpr { s with custom } e).Undisturbed e) :
    ofExpr { s with custom } e = ofExpr s e := by
  have hanalysis : Analysis.ofExpression { s with custom } e = Analysis.ofExpression s e :=
    Analysis.ofExpression_inStyle { s with custom } s e
  have henv : Env.ofExpr { s with custom } e = (Env.ofExpr s e).restyled { s with custom } := by
    unfold Env.ofExpr
    rw [hanalysis]
    rfl
  have hsettings : (Env.ofExpr s e).settings.custom = [] := hplain
  rw [henv] at h
  obtain ⟨hvalue, hbody⟩ := Render.renderer_declining hsettings hdecline h.asksIdly h.keepsBodies
  unfold ofExpr Env.root Env.body Env.value
  rw [henv, hbody h.keepsBody, hvalue]

theorem MethodModel.bodyDoc_declining {calls : List (Nat × ExtractedCall)} {m : MethodModel}
    (h : (m.env { s with custom } calls).Undisturbed m.body) :
    m.bodyDoc { s with custom } calls = m.bodyDoc s calls := by
  have hanalysis : Analysis.ofMethodBody { s with custom } m.body m.returnsValue =
      Analysis.ofMethodBody s m.body m.returnsValue :=
    Analysis.ofMethodBody_inStyle { s with custom } s m.body m.returnsValue
  have henv : m.env { s with custom } calls = (m.env s calls).restyled { s with custom } := by
    unfold MethodModel.env
    rw [hanalysis]
    rfl
  have hsettings : (m.env s calls).settings.custom = [] := hplain
  rw [henv] at h
  have hbody := (Render.renderer_declining hsettings hdecline h.asksIdly h.keepsBodies).2 h.keepsBody
  rw [bodyDoc_eq, bodyDoc_eq, henv, Env.body, Env.body, hbody]

theorem SourceModel.atoms_declining {model : SourceModel}
    (h : ∀ c ∈ model.classes, ∀ m ∈ c.methods, (m.env { s with custom } c.calls).Undisturbed m.body) :
    model.atoms { s with custom } = model.atoms s := by
  have hclass : ∀ c ∈ model.classes, c.atoms { s with custom } = c.atoms s := by
    intro c hc
    have hmethod : ∀ m ∈ c.methods, m.atoms { s with custom } c.calls = m.atoms s c.calls := by
      intro m hm
      have hsignature : m.signature { s with custom } = m.signature s := rfl
      rw [MethodModel.atoms, MethodModel.atoms, hsignature,
        MethodModel.bodyDoc_declining hplain hdecline (h c hc m hm)]
    have hheader : c.header { s with custom } = c.header s := rfl
    rw [ClassModel.atoms, ClassModel.atoms, ClassModel.methodAtoms, ClassModel.methodAtoms, hheader,
      List.map_congr_left hmethod]
  rw [atoms, atoms, List.map_congr_left hclass]

theorem Rendered.ofExpr_declining {e : Expr} (h : (Env.ofExpr { s with custom } e).Undisturbed e) :
    ofExpr { s with custom } e = ofExpr s e := by
  have hanalysis : Analysis.ofExpression { s with custom } e = Analysis.ofExpression s e :=
    Analysis.ofExpression_inStyle { s with custom } s e
  have hlaid (namespaces : List String) (d : Doc) :
      ofDoc { s with custom } namespaces d = ofDoc s namespaces d := rfl
  rw [ofExpr, ofExpr, hanalysis, Doc.ofExpr_declining hplain hdecline h, hlaid]

theorem Source.file_declining {p : SourcePlan}
    (h : ∀ model, p.build s = .ok model → ∀ c ∈ model.classes, ∀ m ∈ c.methods,
      (m.env { s with custom } c.calls).Undisturbed m.body) :
    file { s with custom } p = file s p := by
  have hbuild : p.build { s with custom } = p.build s := SourcePlan.build_inStyle { s with custom } s p
  have hlaid (as : Atoms) : Settings.layOut { s with custom } as = s.layOut as := rfl
  unfold file
  rw [hbuild]
  cases hmodel : p.build s with
  | error _ => simp only [bind, Except.bind]
  | ok model =>
    have hatoms := SourceModel.atoms_declining hplain hdecline (h model hmodel)
    simp only [bind, Except.bind, hatoms, hlaid]

end Texts

/-- **Custom renderers that decline leave no trace**, unless asking them declares a variable, or blocks
have one and a block with variables is wanted as a body. The text of an expression is the same, with and
without markup, and so is its number of lines and the file made for a plan. In any case the namespaces
are the same, and the error that a plan is refused with. -/
theorem Settings.written_declining (s : Settings) (hplain : s.custom = [])
    (custom : List (NodeKind × CustomRenderer)) (hdecline : ∀ c ∈ custom, c.2.Declines) :
    let t : Settings := { s with custom }
    (∀ e, (Env.ofExpr t e).Undisturbed e → Rendered.ofExpr t e = Rendered.ofExpr s e) ∧
      (∀ e, (Rendered.ofExpr t e).namespaces = (Rendered.ofExpr s e).namespaces) ∧
      (∀ p : SourcePlan,
        (∀ model, p.build s = .ok model → ∀ c ∈ model.classes, ∀ m ∈ c.methods,
          (m.env t c.calls).Undisturbed m.body) →
        Source.file t p = Source.file s p) ∧
      ∀ p error, Source.file t p = .error error ↔ Source.file s p = .error error := by
  refine ⟨fun e h => Rendered.ofExpr_declining hplain hdecline h, fun e => ?_,
    fun p h => Source.file_declining hplain hdecline h, fun p error => ?_⟩
  · have hanalysis : Analysis.ofExpression { s with custom } e = Analysis.ofExpression s e :=
      Analysis.ofExpression_inStyle { s with custom } s e
    simp only [Rendered.ofExpr, Rendered.ofDoc, hanalysis]
  · have hbuild : p.build { s with custom } = p.build s := SourcePlan.build_inStyle { s with custom } s p
    unfold Source.file
    rw [hbuild]
    cases p.build s with
    | error _ => simp only [bind, Except.bind]
    | ok model => exact iff_of_false nofun nofun

/-- A lambda with a loop in a block of its own, where blocks and loops have renderers that decline. -/
theorem Settings.written_declining_loop :
    let declining : CustomRenderer := fun _ _ _ => return none
    let t : Settings := { custom := [(.block, declining), (.loop, declining)] }
    let looped : Expr := .mk 2 (.loop (.mk 3 (.block [] [.mk 4 (.comment "on")] .void)) none none)
    let e : Expr := .mk 0 (.lambda none [] (.mk 1 (.block [] [looped] .void)) .void .void)
    declining.Declines ∧ (Env.ofExpr t e).Undisturbed e ∧ Rendered.ofExpr t e = Rendered.ofExpr {} e ∧
      (Rendered.ofExpr {} e).text = "() =>\n\x7b\n    while (true)\n    \x7b\n        // on\n    \x7d\n\x7d" ∧
      Source.file t (.ofExpr e) = Source.file {} (.ofExpr e) := by
  intro declining t looped e
  have hall : ∀ c ∈ t.custom, c.2.Declines ∧ c.2.IsIdle := by
    intro c hc
    simp only [t, List.mem_cons, List.not_mem_nil, or_false] at hc
    obtain rfl | rfl := hc <;> exact ⟨fun _ _ _ _ => rfl, fun _ _ _ _ => rfl⟩
  obtain ⟨htexts, -, hfiles, -⟩ := Settings.written_declining {} rfl t.custom fun c hc => (hall c hc).1
  have hidle (env : Env) (henv : env.settings = t) (x : Expr) : env.AsksIdly x :=
    Env.asksIdly_of_isIdle (fun c hc => (hall c (henv ▸ hc)).2) x
  have hundisturbed : (Env.ofExpr t e).Undisturbed e :=
    ⟨hidle _ rfl e, .inr (by decide +kernel), .inr rfl⟩
  refine ⟨fun _ _ _ _ => rfl, hundisturbed, htexts e hundisturbed, by decide +kernel,
    hfiles (.ofExpr e) ?_⟩
  intro model hmodel c hc m hm
  have hmethods : (((SourcePlan.ofExpr e).build {}).toOption.all fun model => model.classes.all fun c =>
      c.methods.all fun m => !m.body.form.hasLocals &&
        m.body.nodes.all fun x => x.form.bodies.all fun b => !b.form.hasLocals) = true := by
    decide +kernel
  rw [hmodel] at hmethods
  have hmethod := List.all_eq_true.mp (List.all_eq_true.mp hmethods c hc) m hm
  simp only [Bool.and_eq_true, Bool.not_eq_true', List.all_eq_true] at hmethod
  exact ⟨hidle _ rfl m.body, .inr hmethod.2, .inr hmethod.1⟩

end TreeScribe
