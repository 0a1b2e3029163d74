import TreeScribe.Proofs.Analysis.Extracted
import TreeScribe.Proofs.Render.Requests
import TreeScribe.Proofs.Results
import TreeScribe.Source.Build

/-! Methods that are taken out of others.

Which blocks become methods is decided from the public bodies alone, while every method, the private
ones too, is analysed and written on its own. That nothing is missing rests on two facts. A block that
rendering comes to as a value was met as one by the analysis of the method it is in; and what the
analysis of a private method meets, the analysis of the public one it was taken out of has met before
(`Visit.Meets.of_method`). -/
namespace TreeScribe

open Move Moves

/-! ### Extractions -/

theorem exists_of_mem_zipWith {α β γ : Type} {f : α → β → γ} {as : List α} {bs : List β} {c : γ}
    (h : c ∈ as.zipWith f bs) : ∃ a ∈ as, ∃ b ∈ bs, c = f a b := by
  rw [← List.map_uncurry_zip_eq_zipWith] at h
  obtain ⟨⟨a, b⟩, hmem, rfl⟩ := List.mem_map.mp h
  exact ⟨a, (List.of_mem_zip hmem).1, b, (List.of_mem_zip hmem).2, rfl⟩

namespace Extraction

/-- What is taken out of some method bodies. -/
def ofMethods (settings : Settings) (parsed : List ParsedMethod) : List Extraction :=
  distinct [] ((parsed.map fun m => Analysis.ofMethodBody settings m.body (!m.returns.isVoid)).flatMap
    fun a => a.extracted.map (ofBlock a))

theorem mem_of_mem_distinct {seen : List Nat} {xs : List Extraction} {x : Extraction}
    (h : x ∈ distinct seen xs) : x ∈ xs ∧ x.node ∉ seen := by
  induction xs generalizing seen with
  | nil => cases h
  | cons y ys ih =>
    rw [distinct] at h
    split at h
    · exact ⟨List.mem_cons_of_mem _ (ih h).1, (ih h).2⟩
    next hnew =>
      rcases List.mem_cons.mp h with rfl | h
      · exact ⟨List.mem_cons_self .., by simpa using hnew⟩
      · exact ⟨List.mem_cons_of_mem _ (ih h).1, fun hseen => (ih h).2 (List.mem_cons_of_mem _ hseen)⟩

/-- Each block is taken out once. -/
theorem nodup_distinct (seen : List Nat) (xs : List Extraction) :
    ((distinct seen xs).map (·.node)).Nodup := by
  induction xs generalizing seen with
  | nil => exact List.nodup_nil
  | cons x xs ih =>
    rw [distinct]
    split
    · exact ih seen
    · refine List.nodup_cons.mpr ⟨fun h => ?_, ih _⟩
      obtain ⟨y, hy, hnode⟩ := List.mem_map.mp h
      exact (mem_of_mem_distinct hy).2 (hnode ▸ List.mem_cons_self ..)

/-- No block is left out. -/
theorem mem_nodes_distinct {seen : List Nat} {xs : List Extraction} {x : Extraction} (hx : x ∈ xs)
    (hseen : x.node ∉ seen) : x.node ∈ (distinct seen xs).map (·.node) := by
  induction xs generalizing seen with
  | nil => cases hx
  | cons y ys ih =>
    rw [distinct]
    rcases List.mem_cons.mp hx with rfl | hx
    · rw [if_neg (by simpa using hseen)]
      exact List.mem_cons_self ..
    · split
      · exact ih hx hseen
      · by_cases heq : x.node = y.node
        · rw [heq]
          exact List.mem_cons_self ..
        · exact List.mem_cons_of_mem _ (ih hx fun h => (List.mem_cons.mp h).elim heq hseen)

/-- An extraction comes from the analysis of one of the bodies. -/
theorem exists_of_mem_ofMethods {settings : Settings} {parsed : List ParsedMethod} {x : Extraction}
    (h : x ∈ ofMethods settings parsed) : ∃ p ∈ parsed,
      ∃ b ∈ (Analysis.ofMethodBody settings p.body (!p.returns.isVoid)).extracted,
        x = ofBlock (Analysis.ofMethodBody settings p.body (!p.returns.isVoid)) b := by
  obtain ⟨a, ha, hx⟩ := List.mem_flatMap.mp (mem_of_mem_distinct h).1
  obtain ⟨p, hp, rfl⟩ := List.mem_map.mp ha
  obtain ⟨b, hb, rfl⟩ := List.mem_map.mp hx
  exact ⟨p, hp, b, hb, rfl⟩

/-- Every block that becomes a method in one of the bodies is among the extractions. -/
theorem mem_nodes_ofMethods {settings : Settings} {parsed : List ParsedMethod} {p : ParsedMethod}
    (hp : p ∈ parsed) {b : ExtractedBlock}
    (hb : b ∈ (Analysis.ofMethodBody settings p.body (!p.returns.isVoid)).extracted) :
    b.block.label ∈ (ofMethods settings parsed).map (·.node) :=
  mem_nodes_distinct (x := ofBlock (Analysis.ofMethodBody settings p.body (!p.returns.isVoid)) b)
    (List.mem_flatMap.mpr ⟨_, List.mem_map_of_mem hp, List.mem_map_of_mem hb⟩) List.not_mem_nil

end Extraction

theorem NameSlot.length_resolve (slots : List NameSlot) : (resolve slots).length = slots.length := by
  have hfrom (uses earlier : List String) (slots : List NameSlot) :
      (resolveFrom uses earlier slots).length = slots.length := by
    induction slots generalizing earlier with
    | nil => rfl
    | cons s slots ih =>
      obtain ⟨given, default⟩ := s
      cases given <;> exact congrArg (· + 1) (ih _)
  exact hfrom ..

/-! ### Classes that are built -/

namespace ClassModel

/-- The private methods and the calls of a class correspond one to one. -/
def CallsMatch (c : ClassModel) : Prop :=
  List.Forall₂ (fun m call => m.body.label = call.1 ∧ m.name = call.2.name ∧
      m.parameters.map (fun v => (v.writtenName, v.isByRef)) = call.2.arguments)
    (c.methods.filter (·.visibility == .hidden)) c.calls ∧ (c.calls.map (·.1)).Nodup

/-- The class consists of some methods and of those that are taken out of them. -/
def IsBuilt (settings : Settings) (parsed : List ParsedMethod) (c : ClassModel) : Prop :=
  ∃ publicNames privateNames : List String, parsed.length ≤ publicNames.length ∧
    privateNames.length = (Extraction.ofMethods settings parsed).length ∧
    c.methods = (parsed.zip publicNames).map (fun (m, name) =>
      { name, visibility := .exported, summary := m.summary, parameters := m.parameters
        returns := m.returns, body := m.body }) ++
      (Extraction.ofMethods settings parsed).zipWith Extraction.model privateNames ∧
    c.calls = (Extraction.ofMethods settings parsed).zipWith Extraction.call privateNames

end ClassModel

theorem ClassPlan.isBuilt {settings : Settings} {plan : ClassPlan} {name : String}
    {c : ClassModel} {namespaces : List String} (h : plan.build settings name = .ok (c, namespaces)) :
    ∃ parsed, List.Forall₂ (fun m p => ParsedMethod.ofPlan m = .ok p) plan.methods parsed ∧
      c.IsBuilt settings parsed := by
  unfold ClassPlan.build at h
  obtain ⟨parsed, hparsed, h⟩ := exists_of_bind_ok h
  obtain ⟨slots, hslots, h⟩ := exists_of_bind_ok h
  obtain ⟨_, -, h⟩ := exists_of_bind_ok h
  have hplans := (forall₂_of_mapM_ok hparsed).length_eq
  have hlength := (forall₂_of_mapM_ok hslots).length_eq
  rw [List.length_zip, ← hplans, Nat.min_self] at hlength
  let names := NameSlot.resolve (slots ++
    (Extraction.ofMethods settings parsed).map fun x => ⟨none, defaultMethodName x.returns⟩)
  have hnames : names.length = slots.length + (Extraction.ofMethods settings parsed).length := by
    rw [NameSlot.length_resolve, List.length_append, List.length_map]
  obtain ⟨rfl, -⟩ := Prod.mk.inj (Except.ok.inj h)
  refine ⟨parsed, forall₂_of_mapM_ok hparsed, names, names.drop parsed.length, ?_, ?_, rfl, rfl⟩
  · rw [hnames]
    omega
  · rw [List.length_drop, hnames]
    omega

namespace ClassModel.IsBuilt

variable {settings : Settings} {parsed : List ParsedMethod} {c : ClassModel}

/-- A method is one of those that were asked for, or taken out of one of them. -/
theorem mem_methods (h : c.IsBuilt settings parsed) {m : MethodModel} (hm : m ∈ c.methods) :
    (m.visibility = .exported ∧ ∃ p ∈ parsed,
        m.body = p.body ∧ m.returns = p.returns) ∨
      (m.visibility = .hidden ∧ ∃ x ∈ Extraction.ofMethods settings parsed, ∃ name, m = x.model name) := by
  obtain ⟨publicNames, privateNames, -, -, hmethods, -⟩ := h
  rw [hmethods, List.mem_append] at hm
  rcases hm with hm | hm
  · obtain ⟨⟨p, name⟩, hp, rfl⟩ := List.mem_map.mp hm
    exact .inl ⟨rfl, p, (List.of_mem_zip hp).1, rfl, rfl⟩
  · obtain ⟨x, hx, name, -, rfl⟩ := exists_of_mem_zipWith hm
    exact .inr ⟨rfl, x, hx, name, rfl⟩

/-- Every method that was asked for is there. -/
theorem exists_exported (h : c.IsBuilt settings parsed) {p : ParsedMethod} (hp : p ∈ parsed) :
    ∃ m ∈ c.methods, m.visibility = .exported ∧ m.body = p.body := by
  obtain ⟨publicNames, privateNames, hlength, -, hmethods, -⟩ := h
  have hzip : p ∈ (parsed.zip publicNames).map Prod.fst := by
    rw [List.map_fst_zip hlength]
    exact hp
  obtain ⟨⟨p, name⟩, hmem, rfl⟩ := List.mem_map.mp hzip
  exact ⟨_, hmethods ▸ List.mem_append_left _ (List.mem_map_of_mem hmem), rfl, rfl⟩

theorem nodes_calls (h : c.IsBuilt settings parsed) :
    c.calls.map (·.1) = (Extraction.ofMethods settings parsed).map (·.node) := by
  obtain ⟨publicNames, privateNames, -, hlength, -, hcalls⟩ := h
  have hzip (xs : List Extraction) (names : List String) (hle : names.length = xs.length) :
      (xs.zipWith Extraction.call names).map (·.1) = xs.map (·.node) := by
    induction xs generalizing names with
    | nil => rfl
    | cons x xs ih =>
      cases names with
      | nil => cases hle
      | cons name names => exact congrArg (x.node :: ·) (ih names (Nat.succ.inj hle))
  rw [hcalls, hzip _ _ hlength]

/-- **The private methods and the calls of a class correspond one to one.** -/
theorem callsMatch (h : c.IsBuilt settings parsed) : c.CallsMatch := by
  have hnodes := h.nodes_calls
  obtain ⟨publicNames, privateNames, -, hlength, hmethods, hcalls⟩ := h
  have hpublic (ps : List (ParsedMethod × String)) :
      (ps.map fun (m, name) =>
        ({ name, visibility := .exported, summary := m.summary, parameters := m.parameters
           returns := m.returns, body := m.body } : MethodModel)).filter (·.visibility == .hidden) =
        [] := by
    refine List.filter_eq_nil_iff.mpr fun m hm => ?_
    obtain ⟨p, -, rfl⟩ := List.mem_map.mp hm
    exact Bool.false_ne_true
  have hprivate (xs : List Extraction) (names : List String) (hxs : ∀ x ∈ xs, x.body.label = x.node) :
      List.Forall₂ (fun (m : MethodModel) call => m.body.label = call.1 ∧ m.name = call.2.name ∧
          m.parameters.map (fun v => (v.writtenName, v.isByRef)) = call.2.arguments)
        ((xs.zipWith Extraction.model names).filter (·.visibility == .hidden))
        (xs.zipWith Extraction.call names) := by
    induction xs generalizing names with
    | nil => exact .nil
    | cons x xs ih =>
      cases names with
      | nil => exact .nil
      | cons name names =>
        exact .cons ⟨hxs x (List.mem_cons_self ..), rfl, rfl⟩
          (ih names fun y hy => hxs y (List.mem_cons_of_mem _ hy))
  refine ⟨?_, ?_⟩
  · rw [hmethods, List.filter_append, hpublic, List.nil_append, hcalls]
    refine hprivate _ _ fun x hx => ?_
    obtain ⟨p, -, b, -, rfl⟩ := Extraction.exists_of_mem_ofMethods hx
    rfl
  · rw [hnodes]
    exact Extraction.nodup_distinct ..

end ClassModel.IsBuilt

/-! ### Methods within methods -/

/-- A block that becomes a method is visited like a method body. -/
theorem Visit.Meets.of_method {settings : Settings} {e x : Expr} (he : e.isMethodBlock = true)
    (h : Meets settings .source e (Position.ofBody (!e.ty.isVoid)) x .value) :
    Meets settings .source e .value x .value := by
  obtain ⟨node, form⟩ := e
  cases form with
  | block locals es ty =>
    have hmethod : Moves.ofExpr settings .source (.mk node (.block locals es ty)) .value =
        [.scope (.method (.mk node (.block locals es ty))) []
          [Moves.block node locals es ty (BlockRole.ofBody (!ty.isVoid))]] :=
      congrArg (fun m => [m]) (if_pos he)
    have hvisits : Moves.visits settings .source (.mk node (.block locals es ty)) .value =
        Moves.visits settings .source (.mk node (.block locals es ty))
          (Position.ofBody (!ty.isVoid)) := by
      unfold Moves.visits
      rw [hmethod]
      cases ty.isVoid <;> exact List.append_nil _
    change Meets settings .source _ (Position.ofBody (!ty.isVoid)) x .value at h
    have hposition : Position.ofBody (!ty.isVoid) ≠ .value := by
      cases ty.isVoid <;> nofun
    generalize Position.ofBody (!ty.isVoid) = p at h hvisits hposition
    cases h with
    | here => exact absurd rfl hposition
    | there hmem hx => exact .there (hvisits ▸ hmem) hx
  | _ => cases he

/-- What a method is written with. -/
def MethodModel.env (settings : Settings) (calls : List (Nat × ExtractedCall)) (m : MethodModel) : Env :=
  { settings, analysis := Analysis.ofMethodBody settings m.body m.returnsValue, calls }

theorem MethodModel.bodyDoc_eq (settings : Settings) (calls : List (Nat × ExtractedCall))
    (m : MethodModel) :
    m.bodyDoc settings calls = (((m.env settings calls).body m.body m.returnsValue).run []).1.braced :=
  rfl

namespace ClassModel.IsBuilt

variable {settings : Settings} {parsed : List ParsedMethod} {c : ClassModel}

/-- What the analysis of a method meets as a value, that of a public body has met before. -/
theorem meets_public (h : c.IsBuilt settings parsed) {m : MethodModel} (hm : m ∈ c.methods) :
    ∃ p ∈ parsed, ∀ x,
      Visit.Meets settings .source m.body (Position.ofBody m.returnsValue) x .value →
        Visit.Meets settings .source p.body (Position.ofBody (!p.returns.isVoid)) x .value := by
  rcases h.mem_methods hm with ⟨-, p, hp, hbody, hreturns⟩ | ⟨-, x, hx, name, rfl⟩
  · refine ⟨p, hp, fun x hx => ?_⟩
    rw [MethodModel.returnsValue, hbody, hreturns] at hx
    exact hx
  · obtain ⟨p, hp, b, hb, rfl⟩ := Extraction.exists_of_mem_ofMethods hx
    obtain ⟨⟨hmeets, hmethod⟩, -, -⟩ := Visit.run_extracted hb
    exact ⟨p, hp, fun x hx => hmeets.trans (.of_method hmethod hx)⟩

/-- A block that becomes a method somewhere in the class has a call. -/
theorem lookup_isSome (h : c.IsBuilt settings parsed) {m : MethodModel} (hm : m ∈ c.methods) {x : Expr}
    (hmeets : Visit.Meets settings .source m.body (Position.ofBody m.returnsValue) x .value)
    (hx : x.isMethodBlock = true) : (c.calls.lookup x.label).isSome = true := by
  obtain ⟨p, hp, hpublic⟩ := h.meets_public hm
  obtain ⟨b, hb, rfl⟩ := Visit.meets_run (hpublic x hmeets) hx
  have hnode := Extraction.mem_nodes_ofMethods hp hb
  rw [← h.nodes_calls] at hnode
  obtain ⟨entry, hentry, hlabel⟩ := List.mem_map.mp hnode
  exact List.lookup_isSome_iff.mpr ⟨entry, hentry, by simp [hlabel]⟩

/-- **Every method of the class writes as calls the blocks that its analysis takes out.** -/
theorem serves (h : c.IsBuilt settings parsed) {m : MethodModel} (hm : m ∈ c.methods) :
    (m.env settings c.calls).Serves .source m.body (Position.ofBody m.returnsValue) := by
  rintro ⟨node, form⟩ hmeets locals es ty hform - htransparent
  refine h.lookup_isSome hm hmeets ?_
  obtain rfl : form = .block locals es ty := hform
  exact congrArg (! ·) htransparent

end ClassModel.IsBuilt

/-! ### Calls -/

theorem Node.rendersAsStatements_of_isMethodBlock {ι : Type} {n : Node ι} (h : n.isMethodBlock = true) :
    n.rendersAsStatements = true := by
  obtain ⟨l, form⟩ := n
  rw [Node.rendersAsStatements_mk]
  cases form with
  | block locals es ty =>
    rcases es with _ | ⟨e, _ | ⟨e', es⟩⟩
    · rfl
    · cases locals with
      | nil => cases h
      | cons v locals => rfl
    · rfl
  | _ => cases h

theorem Node.isMethodBlock_of_isLeaf {ι : Type} {n : Node ι} (h : n.isLeaf = true) :
    n.isMethodBlock = false := by
  obtain ⟨l, form⟩ := n
  cases form <;> first | rfl | cases h

/-- A block that became a method is written as a call of it. -/
theorem Env.value_methodBlock {env : Env} (hcustom : env.settings.custom = []) {x : Expr}
    (hx : x.isMethodBlock = true) {call : ExtractedCall} (hcall : env.calls.lookup x.label = some call) :
    env.value x = pure (Render.extractedCall call x.ty) := by
  obtain ⟨node, form⟩ := x
  change env.calls.lookup node = some call at hcall
  cases form with
  | block locals es ty =>
    have hplain (form : Form Render.Child) (hform : form = (Form.block locals es ty).map env.child) :
        Render.notedValue env node form = id := by
      funext d
      rw [hform]
      simp [Render.notedValue, Render.isCalled, Form.map, hcall]
    rw [Env.value, Env.renderer_mk]
    show Render.notedValue env node _ <$> Render.asValue env node _ = _
    rw [hplain _ rfl, id_map]
    simp only [Render.asValue, Env.custom?_eq_none hcustom, pure_bind, Form.map, Render.builtIn,
      Render.valueBlock, hcall]
    rcases es with _ | ⟨e, _ | ⟨e', es⟩⟩
    · cases locals <;> rfl
    · cases locals with
      | nil => cases hx
      | cons v locals => rfl
    · cases locals <;> rfl
  | _ => cases hx

namespace ClassModel

/-- In the public methods of the class a number stands for one node. -/
def SharesNodes (c : ClassModel) : Prop :=
  ∀ m ∈ c.methods, ∀ m' ∈ c.methods, m.visibility = .exported → m'.visibility = .exported →
    ∀ x ∈ m.body.nodes, ∀ y ∈ m'.body.nodes, x.label = y.label → x = y

/-- Where no nodes are shared, no number stands for two. -/
theorem sharesNodes_of_nodup {c : ClassModel}
    (h : ((c.methods.filter (·.visibility == .exported)).flatMap (·.body.labels)).Nodup) :
    c.SharesNodes := by
  intro m hm m' hm' hexported hexported' x hx y hy hlabel
  have hlabels : (((c.methods.filter (·.visibility == .exported)).flatMap (·.body.nodes)).map
      Node.label).Nodup := by
    simpa only [List.map_flatMap, Node.map_label_nodes] using h
  have hmem {m : MethodModel} (hm : m ∈ c.methods) (hexported : m.visibility = .exported) {x : Expr}
      (hx : x ∈ m.body.nodes) :
      x ∈ (c.methods.filter (·.visibility == .exported)).flatMap (·.body.nodes) :=
    List.mem_flatMap.mpr ⟨m, List.mem_filter.mpr ⟨hm, by simp [hexported]⟩, hx⟩
  exact List.inj_on_of_nodup_map hlabels (hmem hm hexported hx) (hmem hm' hexported' hy) hlabel

/-- A variable is declared by a scope around a block of a method, or is a parameter of the method, or
is free in a public method. -/
def IsBound (settings : Settings) (m : MethodModel) (b : ExtractedBlock) (key : VariableKey) : Prop :=
  let scopes := (Analysis.ofMethodBody settings m.body m.returnsValue).scopes
  (∃ j, j ≠ ScopeTree.rootScope ∧ scopes.Inside b.scope j ∧ scopes.Declares j key) ∨
    (∃ v ∈ m.parameters, v.key = key) ∨ m.visibility = .exported ∧ key ∈ m.body.free settings

namespace IsBuilt

variable {settings : Settings} {parsed : List ParsedMethod} {c : ClassModel}

/-- The parameters of a private method are the free variables of its body. -/
theorem mem_parameters_iff (h : c.IsBuilt settings parsed) {m : MethodModel} (hm : m ∈ c.methods)
    (hhidden : m.visibility = .hidden) (key : VariableKey) :
    (∃ v ∈ m.parameters, v.key = key) ↔ key ∈ m.body.free settings := by
  rcases h.mem_methods hm with ⟨hexported, -⟩ | ⟨-, x, hx, name, rfl⟩
  · rw [hexported] at hhidden
    cases hhidden
  · obtain ⟨p, hp, b, hb, rfl⟩ := Extraction.exists_of_mem_ofMethods hx
    obtain ⟨-, hescaped, -⟩ := Visit.run_extracted hb
    refine Iff.trans ?_ (hescaped key)
    show (∃ v ∈ List.map _ _, _) ↔ _
    simp only [List.mem_map, exists_exists_and_eq_and]
    rfl

/-- The body of a private method is the block of any method that has its number. -/
theorem body_eq (h : c.IsBuilt settings parsed) (hgraph : c.SharesNodes) {m m' : MethodModel}
    (hm : m ∈ c.methods) (hm' : m' ∈ c.methods) (hhidden : m'.visibility = .hidden) {x : Expr}
    (hmeets : Visit.Meets settings .source m.body (Position.ofBody m.returnsValue) x .value)
    (hlabel : m'.body.label = x.label) : m'.body = x := by
  rcases h.mem_methods hm' with ⟨hexported, -⟩ | ⟨-, y, hy, name, rfl⟩
  · rw [hexported] at hhidden
    cases hhidden
  · obtain ⟨p, hp, b, hb, rfl⟩ := Extraction.exists_of_mem_ofMethods hy
    obtain ⟨⟨hmeets', -⟩, -, -⟩ := Visit.run_extracted hb
    obtain ⟨q, hq, hpublic⟩ := h.meets_public hm
    obtain ⟨n, hn, hn_exported, hn_body⟩ := h.exists_exported hp
    obtain ⟨k, hk, hk_exported, hk_body⟩ := h.exists_exported hq
    exact hgraph n hn k hk hn_exported hk_exported _ (hn_body ▸ hmeets'.mem_nodes) _
      (hk_body ▸ (hpublic x hmeets).mem_nodes) hlabel

/-- **What is passed to a private method is bound where it is called.** -/
theorem bound (h : c.IsBuilt settings parsed) (hgraph : c.SharesNodes) {m m' : MethodModel}
    (hm : m ∈ c.methods) (hm' : m' ∈ c.methods) (hhidden : m'.visibility = .hidden)
    {b : ExtractedBlock}
    (hb : b ∈ (Analysis.ofMethodBody settings m.body m.returnsValue).extracted)
    (hlabel : m'.body.label = b.block.label) {v : Variable} (hv : v ∈ m'.parameters) :
    IsBound settings m b v.key := by
  obtain ⟨⟨hmeets, -⟩, -, hbound⟩ := Visit.run_extracted hb
  have hbody := h.body_eq hgraph hm hm' hhidden hmeets hlabel
  have hfree := (h.mem_parameters_iff hm' hhidden v.key).mp ⟨v, hv, rfl⟩
  rw [hbody] at hfree
  rcases hbound v.key hfree with hfree | hdeclared
  · cases hvisibility : m.visibility with
    | exported => exact .inr (.inr ⟨hvisibility, hfree⟩)
    | hidden => exact .inr (.inl ((h.mem_parameters_iff hm hvisibility v.key).mpr hfree))
  · exact .inl hdeclared

end IsBuilt

end ClassModel

/-! ### Files -/

theorem SourcePlan.isBuilt {settings : Settings} {p : SourcePlan} {model : SourceModel}
    (h : p.build settings = .ok model) {c : ClassModel} (hc : c ∈ model.classes) :
    ∃ plan ∈ p.classes, ∃ parsed,
      List.Forall₂ (fun m p => ParsedMethod.ofPlan m = .ok p) plan.methods parsed ∧
        c.IsBuilt settings parsed := by
  obtain ⟨_, -, h⟩ := exists_of_bind_ok h
  obtain ⟨names, -, h⟩ := exists_of_bind_ok h
  obtain ⟨built, hbuilt, h⟩ := exists_of_bind_ok h
  cases h
  obtain ⟨entry, hentry, rfl⟩ := List.mem_map.mp hc
  obtain ⟨⟨plan, name⟩, hmem, hplan⟩ := exists_of_mapM_ok hbuilt hentry
  exact ⟨plan, (List.of_mem_zip hmem).1, ClassPlan.isBuilt hplan⟩

/-- `{ int y; y = x; y + x }` -/
def passedBlock : Expr :=
  let x : Variable := { name := "x", ty := .int }
  let y : Variable := { name := "y", ty := .int }
  .mk 2 (.block [y]
    [.mk 3 (.binary .assign (.mk 4 (.parameter y)) (.mk 5 (.parameter x)) .int none),
      .mk 6 (.binary .add (.mk 7 (.parameter y)) (.mk 8 (.parameter x)) .int none)] .int)

/-- The block as an operand: `{ int y; y = x; y + x } + x` -/
def passingBody : Expr := .mk 1 (.binary .add passedBlock (.mk 9 (.parameter { name := "x", ty := .int })) .int none)

/-- The lambda of `x` with that body. -/
def passing : SourcePlan := .ofExpr (.mk 0 (.lambda none [{ name := "x", ty := .int }] passingBody .int .object))

end TreeScribe
