import TreeScribe.Proofs.Render.Joined
import TreeScribe.Proofs.Source.Extraction

/-! Declarations in the text of an expression and of a source file.

Wherever a declaration is joined with an assignment, the assignment is a statement of its own
(`SourcePlan.declares_in_statements`), and the variable is in no list of declarations. -/
namespace TreeScribe

open Atoms

/-- Every declaration in the atoms that is joined with an assignment starts a line. From there to a
semicolon the assignment is written as a statement, and its variable is in no list of declarations. -/
def Env.DeclaresInStatements (env : Env) (root : Expr) (as : Atoms) : Prop :=
  ∀ before slot after, as = before ++ .declaration slot :: after → env.analysis.IsJoined slot →
    (before = [] ∨ ∃ lines, before = lines ++ newline) ∧
    (∃ written rest, .declaration slot :: after = written ++ rest ∧
      env.IsAssignmentStatement root slot written) ∧
    ∀ node v, env.analysis.blockScopes.lookup node = some slot.scope →
      env.analysis.scopes.info? slot = some v → v.key ∉ env.analysis.blockDeclarations node

theorem Env.declaresInStatements {env : Env} {root : Expr} {mode : AnalysisMode} {position : Position}
    (hanalysis : env.analysis = Visit.run env.settings mode root position) {as : Atoms}
    (h : env.Settled root (newline ++ as)) : env.DeclaresInStatements root as := by
  rintro before slot after rfl hjoined
  obtain ⟨⟨lines, hlines⟩, hstatement⟩ := h (newline ++ before) slot after (by simp) hjoined
  refine ⟨?_, hstatement, fun node v hnode hv => ?_⟩
  · rcases lines with _ | ⟨a, lines⟩
    · exact .inl (List.cons.inj hlines).2
    · exact .inr ⟨lines, (List.cons.inj hlines).2⟩
  · obtain ⟨w, hw, hdeclaration⟩ := hjoined
    cases hw.symm.trans hv
    rw [hanalysis] at hnode hv ⊢
    exact Visit.not_mem_blockDeclarations hv hdeclaration hnode

/-! ### Methods -/

namespace ParsedMethod

/-- The method is the lambda of a node. -/
def IsLambda (p : ParsedMethod) (e : Expr) : Prop :=
  ∃ name ty, e.form = .lambda name p.parameters p.body p.returns ty

theorem isLambda_ofLambda? {e : Expr} {summary : Option String} {p : ParsedMethod}
    (h : ofLambda? e summary = some p) : p.IsLambda e := by
  unfold ofLambda? at h
  split at h
  next name parameters lambdaBody returnType ty hform =>
    cases h
    exact ⟨name, ty, hform⟩
  · cases h

theorem isLambda_ofAnnotated {es : List Expr} {p : ParsedMethod} (h : ofAnnotated es = .ok p) :
    ∃ e ∈ es, p.IsLambda e := by
  unfold ofAnnotated at h
  split at h
  next note lambda =>
    split at h
    · split at h
      next hlambda =>
        cases h
        exact ⟨lambda, by simp, isLambda_ofLambda? hlambda⟩
      · cases h
    · cases h
  · cases h

/-- A method is a lambda in the tree that was given for it, or the tree itself. -/
theorem origin_ofPlan {m : MethodPlan} {p : ParsedMethod} (h : ofPlan m = .ok p) :
    (∃ e ∈ m.body.nodes, p.IsLambda e) ∨ (p.parameters = [] ∧ p.returns = m.body.ty ∧ p.body = m.body) := by
  obtain ⟨parsed, hparsed, h⟩ := exists_of_bind_ok h
  cases h
  show (∃ e ∈ m.body.nodes, parsed.IsLambda e) ∨
    (parsed.parameters = [] ∧ parsed.returns = m.body.ty ∧ parsed.body = m.body)
  generalize m.body = e at hparsed
  have hplain {p : ParsedMethod} (h : p = { returns := e.ty, body := e }) :
      p.parameters = [] ∧ p.returns = e.ty ∧ p.body = e := by
    rw [h]
    exact ⟨rfl, rfl, rfl⟩
  obtain ⟨node, form⟩ := e
  cases form with
  | lambda name parameters lambdaBody returnType ty =>
    cases hparsed
    exact .inl ⟨_, Node.mem_nodes_self _, name, ty, rfl⟩
  | block locals es ty =>
    unfold ofExpr at hparsed
    dsimp only [Node.form] at hparsed
    split at hparsed
    · obtain ⟨e, he, hlambda⟩ := isLambda_ofAnnotated hparsed
      exact .inl ⟨e, Node.mem_nodes_of_mem he e.mem_nodes_self, hlambda⟩
    · split at hparsed
      · cases hparsed
      · exact .inr (hplain (Except.ok.inj hparsed).symm)
  | _ => exact .inr (hplain (Except.ok.inj hparsed).symm)

/-- The body of a method is part of the tree that was given for it. -/
theorem body_ofPlan {m : MethodPlan} {p : ParsedMethod} (h : ofPlan m = .ok p) :
    p.body ∈ m.body.nodes := by
  rcases origin_ofPlan h with ⟨⟨node, form⟩, he, name, ty, hform⟩ | ⟨-, -, hbody⟩
  · obtain rfl : form = _ := hform
    refine Node.mem_nodes_trans (Node.mem_nodes_of_mem ?_ p.body.mem_nodes_self) he
    exact List.mem_singleton_self p.body
  · rw [hbody]
    exact m.body.mem_nodes_self

end ParsedMethod

namespace ClassModel.IsBuilt

variable {settings : Settings} {plan : ClassPlan} {parsed : List ParsedMethod} {c : ClassModel}

/-- The body of every method, private or public, is part of a tree of the plan. -/
theorem body_mem_nodes (h : c.IsBuilt settings parsed)
    (hplan : List.Forall₂ (fun m p => ParsedMethod.ofPlan m = .ok p) plan.methods parsed)
    {m : MethodModel} (hm : m ∈ c.methods) : ∃ m' ∈ plan.methods, m.body ∈ m'.body.nodes := by
  have hgiven {p : ParsedMethod} (hp : p ∈ parsed) : ∃ m' ∈ plan.methods, p.body ∈ m'.body.nodes := by
    obtain ⟨i, hi, rfl⟩ := List.mem_iff_getElem.mp hp
    have hlt : i < plan.methods.length := by
      rw [hplan.length_eq]
      exact hi
    exact ⟨plan.methods[i], List.getElem_mem hlt, ParsedMethod.body_ofPlan (hplan.get hlt hi)⟩
  rcases h.mem_methods hm with ⟨-, p, hp, hbody, -⟩ | ⟨-, x, hx, name, rfl⟩
  · rw [hbody]
    exact hgiven hp
  · obtain ⟨p, hp, b, hb, rfl⟩ := Extraction.exists_of_mem_ofMethods hx
    obtain ⟨⟨hmeets, -⟩, -, -⟩ := Visit.run_extracted hb
    obtain ⟨m', hm', hmem⟩ := hgiven hp
    exact ⟨m', hm', Node.mem_nodes_trans hmeets.mem_nodes hmem⟩

/-- A method declares its joined variables in statements. -/
theorem declaresInStatements (h : c.IsBuilt settings parsed) (hcustom : settings.custom = [])
    {m : MethodModel} (hm : m ∈ c.methods) (hnodup : m.body.labels.Nodup)
    (hchains : m.body.chainsFit = true) :
    (m.env settings c.calls).DeclaresInStatements m.body (m.bodyDoc settings c.calls).atoms := by
  have hanalysis : (m.env settings c.calls).analysis =
      Visit.run settings .source m.body (Position.ofBody m.returnsValue) := rfl
  refine Env.declaresInStatements hanalysis ?_
  rw [MethodModel.bodyDoc_eq]
  exact Env.Settled.append (.of_marks rfl)
    (Env.settled_body hcustom hanalysis hnodup (h.serves hm) hchains []).braced

end ClassModel.IsBuilt

/-! ### All texts -/

/-- **Every declaration that is joined with an assignment is written as the start of a statement**, in
the text of an expression and in that of every method of a source file. -/
theorem SourcePlan.declares_in_statements (settings : Settings) (hcustom : settings.custom = []) :
    (∀ e : Expr, e.labels.Nodup → e.chainsFit = true →
      (Env.ofExpr settings e).DeclaresInStatements e (Doc.ofExpr settings e).atoms) ∧
    ∀ (p : SourcePlan) (model : SourceModel),
      (∀ c ∈ p.classes, ∀ m ∈ c.methods, m.body.labels.Nodup ∧ m.body.chainsFit = true) →
      p.build settings = .ok model → ∀ c ∈ model.classes, ∀ m ∈ c.methods,
        (m.env settings c.calls).DeclaresInStatements m.body (m.bodyDoc settings c.calls).atoms := by
  refine ⟨fun e hnodup hchains => ?_, fun p model hplans h c hc m hm => ?_⟩
  · have hanalysis : (Env.ofExpr settings e).analysis =
        Visit.run settings .expression e (if e.rendersAsStatements then .statement else .value) := rfl
    exact Env.declaresInStatements hanalysis (Env.settled_ofExpr settings hcustom e hnodup hchains)
  · obtain ⟨plan, hplan, parsed, hparsed, hbuilt⟩ := SourcePlan.isBuilt h hc
    obtain ⟨m', hm', hmem⟩ := hbuilt.body_mem_nodes hparsed hm
    obtain ⟨hnodup, hchains⟩ := hplans plan hplan m' hm'
    exact hbuilt.declaresInStatements hcustom hm (Node.nodup_labels_of_mem hnodup hmem)
      (Node.chainsFit_of_mem_nodes hchains hmem)

/-- `(int x) => { int y; y = x; y + x }`. -/
def joining : Expr :=
  let x : Variable := { name := "x", ty := .int }
  let y : Variable := { name := "y", ty := .int }
  .mk 0 (.lambda none [x] (.mk 1 (.block [y]
    [.mk 2 (.binary .assign (.mk 3 (.parameter y)) (.mk 4 (.parameter x)) .int none),
      .mk 5 (.binary .add (.mk 6 (.parameter y)) (.mk 7 (.parameter x)) .int none)] .int)) .int .object)

/-- The variable of the block is declared where it is assigned to, in the lambda and in a method. -/
theorem declares_in_statements_joining : ∃ model, (SourcePlan.ofExpr joining).build {} = .ok model ∧
    (∃ slot, .declaration slot ∈ (Doc.ofExpr {} joining).atoms ∧
      (Env.ofExpr {} joining).analysis.IsJoined slot) ∧
    (Env.ofExpr {} joining).DeclaresInStatements joining (Doc.ofExpr {} joining).atoms ∧
    ∀ c ∈ model.classes, ∀ m ∈ c.methods,
      (m.env {} c.calls).DeclaresInStatements m.body (m.bodyDoc {} c.calls).atoms := by
  have htree : joining.labels.Nodup ∧ joining.chainsFit = true := by decide +kernel
  have hslot : (Doc.ofExpr {} joining).atoms.any (fun a =>
      match a with
      | .declaration slot => ((Env.ofExpr {} joining).analysis.scopes.info? slot).any
          (·.declaration == .joinedAssignment)
      | _ => false) = true := by decide +kernel
  obtain ⟨hexpression, hmethods⟩ := SourcePlan.declares_in_statements {} rfl
  have hok : ((SourcePlan.ofExpr joining).build {}).isOk = true := by decide +kernel
  obtain ⟨model, hmodel⟩ := exists_of_isOk hok
  refine ⟨model, hmodel, ?_, hexpression joining htree.1 htree.2, hmethods _ model ?_ hmodel⟩
  · obtain ⟨a, ha, hjoined⟩ := List.any_eq_true.mp hslot
    cases a with
    | declaration slot =>
      obtain ⟨v, hv, hdeclaration⟩ := (Option.any_eq_true ..).mp hjoined
      exact ⟨slot, ha, v, hv, eq_of_beq hdeclaration⟩
    | _ => cases hjoined
  · intro c hc m hm
    cases List.mem_singleton.mp hc
    cases List.mem_singleton.mp hm
    exact htree

end TreeScribe
