import TreeScribe.Proofs.Analysis.Plain
import TreeScribe.Proofs.Render.Balanced
import TreeScribe.Proofs.Render.Statements
import TreeScribe.Proofs.Source.Declarations
import TreeScribe.Proofs.Source.NameParts

/-! Well-formed source.

All names in a source file are names in the trees of its plan, are valid as such, or are made of names of
types. What the plan itself brings are the types of interfaces and the names of their methods, which nobody
looks at. If there are no brackets in these nor in the trees, then those of the whole file are closed, and
every statement in it ends as one (`SourcePlan.wellFormed`). -/
namespace TreeScribe

open Atoms

/-! ### Valid names -/

theorem isPlain_of_nameFault? {part : List Char} (h : nameFault? part = none) :
    ∀ c ∈ part, isBracket c = false := fun c hc =>
  isBracket_of_isNameChar ((nameFault?_eq_none_iff.mp h).2.1 c hc)

theorem isPlain_of_validateName {kind : NameKind} {name : String} (h : validateName kind name = .ok ()) :
    IsPlain name := by
  have hparts : ∀ part ∈ nameParts kind name, ∀ c ∈ part, isBracket c = false := fun part hpart =>
    isPlain_of_nameFault? (validateName_ok_iff.mp h part hpart)
  cases kind with
  | ofNamespace =>
    unfold IsPlain
    rw [← Text.intercalate_splitOn '.' name.toList]
    refine intercalate_induction (P := fun cs => ∀ c ∈ cs, isBracket c = false) (List.forall_mem_nil _)
      (fun _ _ hxs hys => List.forall_mem_append.mpr ⟨hxs, hys⟩) ?_ hparts
    exact List.forall_mem_singleton.mpr rfl
  | ofClass | ofMethod => exact hparts name.toList (List.mem_singleton_self _)

theorem isPlain_resolve {slots : List NameSlot}
    (h : ∀ s ∈ slots, AllPlain s.given.toList ∧ IsPlain s.default) : AllPlain (NameSlot.resolve slots) := by
  have hfrom (uses earlier : List String) : AllPlain (NameSlot.resolveFrom uses earlier slots) := by
    induction slots generalizing earlier with
    | nil => exact allPlain_nil
    | cons s slots ih =>
      obtain ⟨⟨hgiven, hdefault⟩, hslots⟩ := List.forall_mem_cons.mp h
      obtain ⟨given, default⟩ := s
      cases given with
      | some name => exact allPlain_cons.mpr ⟨hgiven name (List.mem_singleton_self _), ih hslots _⟩
      | none =>
        refine allPlain_cons.mpr ⟨?_, ih hslots _⟩
        split
        · exact hdefault
        · exact IsPlain.append hdefault (isPlain_nat _)
  exact hfrom _ _

/-! ### Plans and models without brackets -/

/-- There are no brackets in the texts of an interface that are asked for. -/
def Interface.IsPlain (i : Interface) : Prop := AllPlain i.ty.texts ∧ ∀ m ∈ i.methods, TreeScribe.IsPlain m.name

structure ClassPlan.IsPlain (c : ClassPlan) : Prop where
  interfaces : ∀ i ∈ c.interfaces, i.IsPlain
  bodies : ∀ m ∈ c.methods, AllPlain m.body.texts

/-- There are no brackets in the trees of a plan, nor in what it says of interfaces. -/
def SourcePlan.IsPlain (p : SourcePlan) : Prop := ∀ c ∈ p.classes, c.IsPlain

structure ParsedMethod.IsPlain (m : ParsedMethod) : Prop where
  parameters : ∀ v ∈ m.parameters, AllPlain v.texts
  returns : AllPlain m.returns.texts
  body : AllPlain m.body.texts

structure MethodModel.IsPlain (m : MethodModel) : Prop where
  name : TreeScribe.IsPlain m.name
  parameters : ∀ v ∈ m.parameters, AllPlain v.texts
  returns : AllPlain m.returns.texts
  body : AllPlain m.body.texts

structure ClassModel.IsPlain (c : ClassModel) : Prop where
  name : TreeScribe.IsPlain c.name
  interfaces : ∀ t ∈ c.interfaces, AllPlain t.texts
  methods : ∀ m ∈ c.methods, m.IsPlain
  calls : ∀ call ∈ c.calls, AllPlain (call.2.name :: call.2.arguments.map (·.1))

structure SourceModel.IsPlain (s : SourceModel) : Prop where
  nameSpace : TreeScribe.IsPlain s.nameSpace
  usings : AllPlain s.usings
  classes : ∀ c ∈ s.classes, c.IsPlain

/-! ### Methods -/

theorem Node.allPlain_ty {ι : Type} {e : Node ι} (h : AllPlain e.texts) : AllPlain e.ty.texts :=
  Form.allPlain_ty (h.mono (form_texts_subset e.mem_nodes_self))

theorem ParsedMethod.isPlain_ofPlan {m : MethodPlan} (hm : AllPlain m.body.texts) {p : ParsedMethod}
    (h : ofPlan m = .ok p) : p.IsPlain := by
  have hbody : AllPlain p.body.texts := hm.mono (Node.texts_subset_of_mem (body_ofPlan h))
  rcases origin_ofPlan h with ⟨e, he, name, ty, hform⟩ | ⟨hparameters, hreturns, -⟩
  · have htexts := hm.mono (Node.form_texts_subset he)
    rw [hform] at htexts
    obtain ⟨hsignature, -⟩ := allPlain_append.mp htexts
    obtain ⟨hparameters, hreturns⟩ := allPlain_append.mp hsignature
    exact ⟨allPlain_flatMap.mp hparameters, hreturns, hbody⟩
  · refine ⟨?_, hreturns ▸ Node.allPlain_ty hm, hbody⟩
    rw [hparameters]
    exact List.forall_mem_nil _

namespace Extraction

theorem isPlain_ofMethods {settings : Settings} {parsed : List ParsedMethod} (h : ∀ p ∈ parsed, p.IsPlain)
    {x : Extraction} (hx : x ∈ ofMethods settings parsed) :
    (∀ v ∈ x.parameters, AllPlain v.texts) ∧ AllPlain x.returns.texts ∧ AllPlain x.body.texts := by
  obtain ⟨p, hp, b, hb, rfl⟩ := exists_of_mem_ofMethods hx
  have hbody := (h p hp).body
  obtain ⟨⟨hmeets, -⟩, -, -⟩ := Visit.run_extracted hb
  have hblock : AllPlain b.block.texts := hbody.mono (Node.texts_subset_of_mem hmeets.mem_nodes)
  refine ⟨List.forall_mem_map.mpr fun e he => ?_, Node.allPlain_ty hblock, hblock⟩
  exact (Visit.isPlain_run hbody .source _).escaped b e he

end Extraction

/-! ### Names of classes and methods -/

/-- There are no brackets in the names of the types that signatures write. -/
theorem ClassModel.IsPlain.signatureTypes {c : ClassModel} (h : c.IsPlain) :
    ∀ t ∈ ClassPlan.signatureTypes c.interfaces c.methods, AllPlain t.texts := by
  refine List.forall_mem_append.mpr ⟨h.interfaces, fun t ht => ?_⟩
  obtain ⟨m, hm, ht⟩ := List.mem_flatMap.mp ht
  rcases List.mem_cons.mp ht with rfl | ht
  · exact (h.methods m hm).returns
  · obtain ⟨v, hv, rfl⟩ := List.mem_map.mp ht
    exact (allPlain_cons.mp ((h.methods m hm).parameters v hv)).2

theorem Interface.mem_of_find? {interfaces : List Interface} {parameters : List TypeRef} {returns : TypeRef}
    {place : Nat} {m : MethodInfo} (h : find? interfaces parameters returns = .ok (some (place, m))) :
    ∃ i ∈ interfaces, m ∈ i.methods := by
  unfold find? at h
  dsimp only at h
  split at h
  · cases h
  next entry place' hcandidates =>
    cases h
    have hmem : (entry, place) ∈ (allMethods interfaces).zipIdx :=
      (List.mem_filter.mp (hcandidates ▸ List.mem_singleton_self _)).1
    obtain ⟨i, hi, hentry⟩ := List.mem_flatMap.mp (List.fst_mem_of_mem_zipIdx hmem)
    obtain ⟨m, hm, rfl⟩ := List.mem_map.mp hentry
    exact ⟨i, hi, hm⟩
  · cases h

namespace ClassPlan

variable {c : ClassPlan} (hc : c.IsPlain)

theorem forall_names_of_validate (h : c.validate = .ok ()) :
    (∀ name ∈ c.name, validateName .ofClass name = .ok ()) ∧
      ∀ plan ∈ c.methods, ∀ name ∈ plan.name, validateName .ofMethod name = .ok () := by
  obtain ⟨_, hname, h⟩ := exists_of_bind_ok h
  obtain ⟨_, hgiven, -⟩ := exists_of_bind_ok h
  refine ⟨fun name hn => ?_, fun plan hplan name hn => ?_⟩
  · rw [Option.mem_def.mp hn] at hname
    exact hname
  · exact forall_of_forM_ok hgiven name (List.mem_filterMap.mpr ⟨plan, hplan, hn⟩)

theorem isPlain_of_validate (h : c.validate = .ok ()) :
    (∀ name ∈ c.name, TreeScribe.IsPlain name) ∧ ∀ m ∈ c.methods, ∀ name ∈ m.name, TreeScribe.IsPlain name := by
  obtain ⟨hname, hmethods⟩ := forall_names_of_validate h
  exact ⟨fun name hn => isPlain_of_validateName (hname name hn),
    fun m hm name hn => isPlain_of_validateName (hmethods m hm name hn)⟩

include hc

theorem isPlain_slot {plan : MethodPlan} (hplan : ∀ name ∈ plan.name, TreeScribe.IsPlain name)
    {m : ParsedMethod} (hm : m.IsPlain) {s : NameSlot} (h : c.slot plan m = .ok s) :
    AllPlain s.given.toList ∧ TreeScribe.IsPlain s.default := by
  have hdefault := isPlain_defaultMethodName hm.returns
  unfold slot at h
  cases hname : plan.name with
  | some name =>
    rw [hname] at h
    cases h
    exact ⟨List.forall_mem_singleton.mpr (hplan name hname), hdefault⟩
  | none =>
    rw [hname] at h
    obtain ⟨found, hfound, h⟩ := exists_of_bind_ok h
    cases h
    refine ⟨fun name hname => ?_, hdefault⟩
    obtain ⟨⟨place, m⟩, rfl, rfl⟩ := Option.map_eq_some_iff.mp (Option.mem_toList.mp hname)
    obtain ⟨i, hi, hm⟩ := Interface.mem_of_find? hfound
    exact (hc.interfaces i hi).2 m hm

theorem isPlain_build {settings : Settings} (hvalid : c.validate = .ok ()) {name : String}
    (hname : TreeScribe.IsPlain name) {model : ClassModel} {namespaces : List String}
    (h : c.build settings name = .ok (model, namespaces)) : model.IsPlain ∧ AllPlain namespaces := by
  unfold ClassPlan.build at h
  obtain ⟨parsed, hparsed, h⟩ := exists_of_bind_ok h
  obtain ⟨slots, hslots, h⟩ := exists_of_bind_ok h
  obtain ⟨_, -, h⟩ := exists_of_bind_ok h
  obtain ⟨hmodel, hspaces⟩ := Prod.mk.inj (Except.ok.inj h)
  have hmethods : ∀ p ∈ parsed, p.IsPlain := by
    intro p hp
    obtain ⟨m, hm, hplan⟩ := exists_of_mapM_ok hparsed hp
    exact ParsedMethod.isPlain_ofPlan (hc.bodies m hm) hplan
  have hextractions := fun x (hx : x ∈ Extraction.ofMethods settings parsed) =>
    Extraction.isPlain_ofMethods hmethods hx
  have hnames : AllPlain (NameSlot.resolve (slots ++ (Extraction.ofMethods settings parsed).map fun x =>
      ⟨none, defaultMethodName x.returns⟩)) := by
    refine isPlain_resolve (List.forall_mem_append.mpr ⟨fun s hs => ?_, List.forall_mem_map.mpr fun x hx => ?_⟩)
    · obtain ⟨⟨plan, m⟩, hmem, hslot⟩ := exists_of_mapM_ok hslots hs
      obtain ⟨hplan, hm⟩ := List.of_mem_zip hmem
      exact isPlain_slot hc ((isPlain_of_validate hvalid).2 plan hplan) (hmethods m hm) hslot
    · exact ⟨allPlain_nil, isPlain_defaultMethodName (hextractions x hx).2.1⟩
  have hprivate := fun name hname => hnames name (List.mem_of_mem_drop (i := parsed.length) hname)
  have hclass : model.IsPlain := by
    rw [← hmodel]
    refine ⟨hname, List.forall_mem_map.mpr fun i hi => (hc.interfaces i hi).1,
      List.forall_mem_append.mpr ⟨List.forall_mem_map.mpr fun entry hentry => ?_, fun m hm => ?_⟩,
      fun call hcall => ?_⟩
    · obtain ⟨hm, hname⟩ := List.of_mem_zip hentry
      have hm := hmethods _ hm
      exact ⟨hnames _ hname, hm.parameters, hm.returns, hm.body⟩
    · obtain ⟨x, hx, name, hname, rfl⟩ := exists_of_mem_zipWith hm
      obtain ⟨hparameters, hreturns, hbody⟩ := hextractions x hx
      exact ⟨hprivate name hname, hparameters, hreturns, hbody⟩
    · obtain ⟨x, hx, name, hname, rfl⟩ := exists_of_mem_zipWith hcall
      refine allPlain_cons.mpr ⟨hprivate name hname, ?_⟩
      simp only [Extraction.call, List.map_map]
      refine List.forall_mem_map.mpr fun v hv => ?_
      obtain ⟨hname, hty⟩ := allPlain_cons.mp ((hextractions x hx).1 v hv)
      exact isPlain_writtenName hname hty
  subst hmodel
  rw [← hspaces]
  refine ⟨hclass, allPlain_append.mpr ⟨allPlain_flatMap.mpr (List.forall_mem_map.mpr fun p hp => ?_), ?_⟩⟩
  · exact (Visit.isPlain_run (hmethods p hp).body .source _).requiredNamespaces
  · split
    · exact allPlain_nil
    · exact allPlain_flatMap.mpr fun t ht =>
        (hclass.signatureTypes t ht).mono (TypeRef.requiredNamespaces_subset t)

end ClassPlan

/-! ### Names of files -/

namespace SourcePlan

variable {p : SourcePlan}

theorem classNames_eq {names : List String} (h : p.classNames = .ok names) :
    names = NameSlot.resolve (p.classes.map fun c => ⟨c.name, defaultClassName⟩) := by
  unfold classNames at h
  dsimp only at h
  split at h
  · cases h
  · obtain ⟨_, -, h⟩ := exists_of_bind_ok h
    split at h
    · cases h
    · cases h
      rfl

theorem isPlain_classNames (h : ∀ c ∈ p.classes, ∀ name ∈ c.name, TreeScribe.IsPlain name) {names : List String}
    (hnames : p.classNames = .ok names) : AllPlain names := by
  have hdefault : TreeScribe.IsPlain defaultClassName := by decide
  rw [classNames_eq hnames]
  exact isPlain_resolve (List.forall_mem_map.mpr fun c hc =>
    ⟨fun name hname => h c hc name (Option.mem_toList.mp hname), hdefault⟩)

/-- There are no brackets in the names of what is built from a plan without brackets. -/
theorem isPlain_build {settings : Settings} (hp : p.IsPlain) {model : SourceModel}
    (h : p.build settings = .ok model) : model.IsPlain := by
  obtain ⟨_, hvalid, h⟩ := exists_of_bind_ok h
  obtain ⟨names, hnames, h⟩ := exists_of_bind_ok h
  obtain ⟨built, hbuilt, h⟩ := exists_of_bind_ok h
  cases h
  obtain ⟨_, hspace, hvalid⟩ := exists_of_bind_ok hvalid
  obtain ⟨_, hclasses, -⟩ := exists_of_bind_ok hvalid
  have hclasses := forall_of_forM_ok hclasses
  have hnames := isPlain_classNames (fun c hc => (ClassPlan.isPlain_of_validate (hclasses c hc)).1) hnames
  have hbuilt : ∀ entry ∈ built, entry.1.IsPlain ∧ AllPlain entry.2 := by
    intro entry hentry
    obtain ⟨⟨c, name⟩, hmem, hbuild⟩ := exists_of_mapM_ok hbuilt hentry
    obtain ⟨hc, hname⟩ := List.of_mem_zip hmem
    exact ClassPlan.isPlain_build (hp c hc) (hclasses c hc) (hnames name hname) hbuild
  refine ⟨isPlain_of_validateName hspace, fun space hspace => ?_, List.forall_mem_map.mpr fun entry hentry =>
    (hbuilt entry hentry).1⟩
  rcases NamespaceSet.addAll_subset {} _ (mem_sortNamespaces.mp hspace) with hspace | ⟨hspace, -⟩
  · cases hspace
  · obtain ⟨entry, hentry, hspace⟩ := List.mem_flatMap.mp hspace
    exact (hbuilt entry hentry).2 space hspace

end SourcePlan

/-! ### Files without brackets in their names -/

namespace MethodModel

theorem balanced_summaryAtoms (summary : String) : Balanced (summaryAtoms summary) := by
  have hlines : Balanced ((Text.lines summary.toList).flatMap fun line =>
      newline ++ token .comment ("/// " ++ String.ofList (Text.trimEnd line))) := by
    rw [List.flatMap_def]
    exact .flatten (List.forall_mem_map.mpr fun line _ => .append .newline (.comment _))
  exact .append (.append (.append (.append (.comment _) hlines) .newline) (.comment _)) .newline

variable {settings : Settings} (hnamer : settings.typeNames.NamesPlainly)

include hnamer

theorem balanced_parameterAtoms {v : Variable} (hv : AllPlain v.texts) :
    Balanced (parameterAtoms settings v) := by
  obtain ⟨hname, hty⟩ := allPlain_cons.mp hv
  have hwritten : TreeScribe.IsPlain v.writtenName := isPlain_writtenName hname hty
  have htype : Balanced (typeName settings.typeNames v.ty) := .typeName hnamer hty
  unfold parameterAtoms
  grind

theorem balanced_signature {m : MethodModel} (hm : m.IsPlain) : Balanced (signature settings m) := by
  have htype := Balanced.typeName hnamer hm.returns
  have hvisibility : TreeScribe.IsPlain m.visibility.text := by cases m.visibility <;> decide
  have hparameters : Balanced (Atoms.separated ", " (m.parameters.map (parameterAtoms settings))) :=
    .separated (by decide) (List.forall_mem_map.mpr fun v hv => balanced_parameterAtoms hnamer (hm.parameters v hv))
  have hname := hm.name
  unfold signature
  grind

/-- There are no brackets in the names that the methods of a class refer to. -/
theorem isPlain_env (hcustom : settings.custom = []) {c : ClassModel} (hc : c.IsPlain) {m : MethodModel}
    (hm : m.IsPlain) : (m.env settings c.calls).IsPlain where
  custom := hcustom
  namer := hnamer
  declared := (Visit.isPlain_run hm.body .source _).blockDeclarations
  calls := hc.calls

theorem balanced_atoms (hcustom : settings.custom = []) {c : ClassModel} (hc : c.IsPlain) {m : MethodModel}
    (hm : m.IsPlain) : Balanced (m.atoms settings c.calls) := by
  have hsummary : Balanced ((m.summary.map summaryAtoms).getD []) := by
    cases m.summary with
    | none => exact .nil
    | some summary => exact balanced_summaryAtoms summary
  have hbody : (m.bodyDoc settings c.calls).IsBalanced := by
    rw [bodyDoc_eq]
    have hrenderer := Env.balanced_renderer (isPlain_env hnamer hcustom hc hm) hm.body
    exact Doc.IsBalanced.braced (hrenderer.body m.returnsValue [])
  exact .append (.append (.append hsummary (balanced_signature hnamer hm)) .newline) hbody

end MethodModel

section Files

variable {settings : Settings} (hcustom : settings.custom = []) (hnamer : settings.typeNames.NamesPlainly)

include hcustom hnamer

theorem ClassModel.balanced_atoms {c : ClassModel} (hc : c.IsPlain) : Balanced (c.atoms settings) := by
  have hname := hc.name
  have hinterfaces : Balanced (Atoms.separated ", " (c.interfaces.map (typeName settings.typeNames))) :=
    .separated (by decide) (List.forall_mem_map.mpr fun t ht => .typeName hnamer (hc.interfaces t ht))
  have hheader : Balanced (c.header settings) := by
    unfold header
    grind
  have hmethods : Balanced (c.methodAtoms settings) :=
    .intercalate (.append .newline .newline) (List.forall_mem_map.mpr fun m hm =>
      MethodModel.balanced_atoms hnamer hcustom hc (hc.methods m hm))
  exact .append (.append hheader .newline) (.braces (.append (.indented (.append .newline hmethods)) .newline))

theorem SourceModel.balanced_atoms {s : SourceModel} (hs : s.IsPlain) : Balanced (s.atoms settings) := by
  have hspace := hs.nameSpace
  have husings : Balanced (s.usings.flatMap usingAtoms) := by
    rw [List.flatMap_def]
    refine .flatten (List.forall_mem_map.mpr fun space hspace => ?_)
    have hspace := hs.usings space hspace
    unfold usingAtoms
    grind
  have hclasses : Balanced ((newline ++ newline).intercalate (s.classes.map (·.atoms settings))) :=
    .intercalate (.append .newline .newline) (List.forall_mem_map.mpr fun c hc =>
      ClassModel.balanced_atoms hcustom hnamer (hs.classes c hc))
  have hinside := Balanced.braces (.append (.indented (.append .newline hclasses)) .newline)
  unfold SourceModel.atoms
  grind

end Files

/-! ### All source files -/

/-- **Generated source is well-formed.** If there are no brackets in the trees of a plan, in the types of
its interfaces and the names of their methods, nor in what anonymous types are called, then all brackets of
the file are closed, and every statement in its methods ends with a semicolon, a closing brace or a colon,
or is a comment. -/
theorem SourcePlan.wellFormed (settings : Settings) (hcustom : settings.custom = [])
    (hnamer : settings.typeNames.NamesPlainly) (p : SourcePlan) (hp : p.IsPlain) (model : SourceModel)
    (h : p.build settings = .ok model) :
    Balanced (model.atoms settings) ∧
      ∀ c ∈ model.classes, ∀ m ∈ c.methods, ∀ x ∈ m.body.nodes, (m.env settings c.calls).WritesStatements x :=
  ⟨SourceModel.balanced_atoms hcustom hnamer (isPlain_build hp h),
    fun _ _ _ _ x _ => Env.writesStatements hcustom x⟩

/-- `(int x) => { int y; // an open ( bracket; y = x; y + x }`. -/
def remarking : SourcePlan :=
  let x : Variable := { name := "x", ty := .int }
  let y : Variable := { name := "y", ty := .int }
  .ofExpr (.mk 0 (.lambda none [x] (.mk 1 (.block [y]
    [.mk 2 (.comment "an open ( bracket"),
      .mk 3 (.binary .assign (.mk 4 (.parameter y)) (.mk 5 (.parameter x)) .int none),
      .mk 6 (.binary .add (.mk 7 (.parameter y)) (.mk 8 (.parameter x)) .int none)] .int)) .int .object))

/-- The bracket in the comment is left open, all others are closed. -/
theorem wellFormed_remarking :
    (({} : Settings).custom = [] ∧ ({} : Settings).typeNames.NamesPlainly ∧ remarking.IsPlain) ∧
    ∃ model, remarking.build {} = .ok model ∧ Balanced (model.atoms {}) ∧
      ∃ c ∈ model.classes, ∃ m ∈ c.methods, (m.env {} c.calls).WritesStatements m.body := by
  have hnamer : ({} : Settings).typeNames.NamesPlainly := nofun
  have hplain : remarking.IsPlain := by
    intro c hc
    cases List.mem_singleton.mp hc
    refine ⟨List.forall_mem_nil _, fun m hm => ?_⟩
    cases List.mem_singleton.mp hm
    decide +kernel
  refine ⟨⟨rfl, hnamer, hplain⟩, ?_⟩
  have hmethods : (match remarking.build {} with
      | .ok model => model.classes.any (!·.methods.isEmpty)
      | .error _ => false) = true := by decide +kernel
  cases hmodel : remarking.build {} with
  | error e =>
    rw [hmodel] at hmethods
    cases hmethods
  | ok model =>
    rw [hmodel] at hmethods
    obtain ⟨hbalanced, hstatements⟩ := SourcePlan.wellFormed {} rfl hnamer remarking hplain model hmodel
    obtain ⟨c, hc, hnonempty⟩ := List.any_eq_true.mp hmethods
    obtain ⟨m, hm⟩ := List.exists_mem_of_ne_nil c.methods (by simpa using hnonempty)
    exact ⟨model, rfl, hbalanced, c, hc, m, hm, hstatements c hc m hm m.body m.body.mem_nodes_self⟩

/-- A method `1` in a class that implements an interface called `I(`. -/
def openInterface : SourcePlan :=
  { classes := [{ interfaces := [{ ty := .named .interface "Demo" "I(" }]
                  methods := [{ body := .mk 0 (.constant ⟨.int 1, .int⟩) }] }] }

/-- There are no brackets in the tree, and yet one is not closed: nobody looks at the names of interfaces. -/
theorem not_wellFormed_openInterface :
    (({} : Settings).custom = [] ∧ ∀ c ∈ openInterface.classes, ∀ m ∈ c.methods, AllPlain m.body.texts) ∧
    ∃ model, openInterface.build {} = .ok model ∧ ¬Balanced (model.atoms {}) := by
  refine ⟨⟨rfl, by decide +kernel⟩, ?_⟩
  have hopen : (match openInterface.build {} with
      | .ok model => !decide (IsNested (Atoms.code (model.atoms {})))
      | .error _ => false) = true := by decide +kernel
  cases hmodel : openInterface.build {} with
  | error e =>
    rw [hmodel] at hopen
    cases hopen
  | ok model =>
    rw [hmodel] at hopen
    have hnot : ¬IsNested (Atoms.code (model.atoms {})) := by simpa using hopen
    exact ⟨model, rfl, hnot⟩

end TreeScribe
