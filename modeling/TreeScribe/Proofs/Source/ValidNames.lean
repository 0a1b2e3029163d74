import TreeScribe.Proofs.Source.Names
import TreeScribe.Proofs.Source.WellFormed
import TreeScribe.Proofs.TypeRef.Substitution

/-! Which names of a generated file are valid.

The names that are given are checked before anything else, and no others are. A name that is made for a
class is always valid, and so is that of a method without a result. Any other name of a method describes
the type of the result: it begins with a capital letter and is not reserved, so that all depends on the
names of types that it consists of. A name that comes from an interface is taken as it is
(`SourcePlan.validNames`). -/
namespace TreeScribe

/-! ### Names that begin with a capital letter -/

/-- The text consists of characters that names consist of. -/
def IsSpelled (s : String) : Prop := ∀ c ∈ s.toList, isNameChar c = true

instance (s : String) : Decidable (IsSpelled s) := inferInstanceAs (Decidable (∀ c ∈ s.toList, _))

theorem isSpelled_append {s t : String} : IsSpelled (s ++ t) ↔ IsSpelled s ∧ IsSpelled t := by
  unfold IsSpelled
  rw [String.toList_append, List.forall_mem_append]

theorem isSpelled_nat (n : Nat) : IsSpelled (toString n) := by
  intro c hc
  have hdigit : c.isDigit = true := Nat.isDigit_of_mem_toDigits (by decide) (by decide) (Nat.toList_repr ▸ hc)
  have hascii : c.toNat < 0x80 := by
    have hle : c.toNat ≤ 57 := (Char.isDigit_iff_toNat.mp hdigit).2
    omega
  simp [isNameChar, Text.isAlphanumeric, hascii, Char.isAlphanum, hdigit]

theorem nameFault?_of_capital {c : Char} {rest : List Char} (hc : c ∈ ['D', 'G']) :
    nameFault? (c :: rest) = none ↔ ∀ d ∈ c :: rest, isNameChar d = true := by
  have hdigit : ∀ c ∈ ['D', 'G'], c.isDigit = false := by decide
  have hreserved : ∀ c ∈ ['D', 'G'], ∀ word ∈ reservedWords, word.toList.head? ≠ some c := by decide +kernel
  have hfree : isReserved (String.ofList (c :: rest)) = false := by
    rw [isReserved, ← Bool.not_eq_true, List.contains_iff_mem]
    intro hmem
    exact hreserved c hc _ hmem (by simp)
  rw [nameFault?_eq_none_iff]
  exact ⟨fun h => h.2.1, fun hchars => ⟨List.cons_ne_nil c rest, hchars, hdigit c hc, hfree⟩⟩

/-- What is checked of the name of a class or a method. -/
theorem validateName_eq_ok_iff {kind : NameKind} (hkind : kind ≠ .ofNamespace) {name : String} :
    validateName kind name = .ok () ↔ nameFault? name.toList = none := by
  have hparts : nameParts kind name = [name.toList] := by
    cases kind with
    | ofNamespace => exact absurd rfl hkind
    | ofClass | ofMethod => rfl
  rw [validateName_ok_iff, hparts]
  exact List.forall_mem_singleton

/-- A name that begins with a capital letter is valid if its characters are. -/
theorem validateName_of_capital {kind : NameKind} (hkind : kind ≠ .ofNamespace) {name : String} {c : Char}
    (hc : c ∈ ['D', 'G']) (hname : name.toList.head? = some c) :
    validateName kind name = .ok () ↔ IsSpelled name := by
  obtain ⟨rest, hrest⟩ := List.head?_eq_some_iff.mp hname
  rw [validateName_eq_ok_iff hkind, IsSpelled, hrest]
  exact nameFault?_of_capital hc

/-! ### Names that describe types -/

namespace TypeRef

mutual

/-- The names of types that the description of a type consists of. -/
def describedBy : TypeRef → List String
  | ⟨_, _, _, _, _, some element, _, _, _⟩ => describedBy element
  | ⟨k, space, name, declaring, args, none, rank, anonymous, closure⟩ =>
    let t : TypeRef := ⟨k, space, name, declaring, args, none, rank, anonymous, closure⟩
    if t.isNullable then describedByAll args
    else if t.isAnonymous || t.keyword?.isSome then []
    else if t.isParameter then [name]
    else describedByAll args ++ [t.shortName]

def describedByAll : List TypeRef → List String
  | [] => []
  | t :: ts => describedBy t ++ describedByAll ts

end

theorem describedByAll_eq (ts : List TypeRef) : describedByAll ts = ts.flatMap describedBy := by
  induction ts with
  | nil => rfl
  | cons t ts ih => rw [describedByAll, ih, List.flatMap_cons]

theorem describedBy_array {t e : TypeRef} (h : t.element = some e) : t.describedBy = e.describedBy := by
  cases t
  cases h
  rw [describedBy]

theorem describedBy_named {t : TypeRef} (h : t.element = none) : t.describedBy =
    if t.isNullable then t.args.flatMap describedBy
    else if t.isAnonymous || t.keyword?.isSome then []
    else if t.isParameter then [t.name]
    else t.args.flatMap describedBy ++ [t.shortName] := by
  cases t
  cases h
  rw [describedBy, describedByAll_eq]

theorem pascalName_array {t e : TypeRef} (h : t.element = some e) : t.pascalName = e.pascalName ++ "Array" := by
  cases t
  cases h
  rw [pascalName]

theorem pascalName_named {t : TypeRef} (h : t.element = none) : t.pascalName =
    if t.isNullable then "Nullable" ++ pascalNames t.args
    else if t.isAnonymous then "AnonymousType"
    else
      match t.keyword? with
      | some keyword => Text.capitalize keyword
      | none =>
        if t.isParameter then Text.capitalize t.name
        else pascalNames t.args ++ Text.capitalize t.shortName := by
  cases t
  cases h
  unfold pascalName
  rfl

theorem isSpelled_pascalNames {ts : List TypeRef} :
    IsSpelled (pascalNames ts) ↔ ∀ t ∈ ts, IsSpelled t.pascalName := by
  induction ts with
  | nil => exact iff_of_true (by decide) (List.forall_mem_nil _)
  | cons t ts ih => rw [pascalNames, isSpelled_append, ih, List.forall_mem_cons]

/-- The description of a type consists of names, each capitalized, and of what is put between them. -/
theorem isSpelled_pascalName (t : TypeRef) :
    IsSpelled t.pascalName ↔ ∀ name ∈ t.describedBy, IsSpelled (Text.capitalize name) := by
  induction t using partsInduction with
  | h t helement hargs =>
    cases hnamed : t.element with
    | some e =>
      have hend : IsSpelled "Array" := by decide +kernel
      rw [pascalName_array hnamed, describedBy_array hnamed, isSpelled_append, and_iff_left hend]
      exact helement e hnamed
    | none =>
      have hlead : IsSpelled "Nullable" := by decide +kernel
      have hanonymous : IsSpelled "AnonymousType" := by decide +kernel
      have hkeywords : ∀ keyword ∈ keywords, IsSpelled (Text.capitalize keyword) := by decide +kernel
      have hall : IsSpelled (pascalNames t.args) ↔
          ∀ name ∈ t.args.flatMap describedBy, IsSpelled (Text.capitalize name) := by
        rw [isSpelled_pascalNames, List.forall_mem_flatMap]
        exact forall₂_congr hargs
      rw [pascalName_named hnamed, describedBy_named hnamed]
      by_cases hnullable : t.isNullable = true
      · rw [if_pos hnullable, if_pos hnullable, isSpelled_append, hall, and_iff_right hlead]
      rw [if_neg hnullable, if_neg hnullable]
      by_cases hnameless : t.isAnonymous = true
      · simp [hnameless, hanonymous]
      cases hkeyword : t.keyword? with
      | some keyword => simp [hnameless, hkeywords keyword (mem_keywords hkeyword)]
      | none =>
        by_cases hparameter : t.isParameter = true
        · simp [hnameless, hparameter]
        · rw [if_neg hnameless, if_neg hparameter, isSpelled_append, hall]
          simp [hnameless, hparameter, or_imp, forall_and]

end TypeRef

/-! ### Names of slots -/

/-- All characters of the names of types that a default name describes may stand in names. -/
def DescribesValidly (returns : TypeRef) : Prop :=
  returns.isVoid = true ∨ ∀ name ∈ returns.describedBy, IsSpelled (Text.capitalize name)

instance (returns : TypeRef) : Decidable (DescribesValidly returns) :=
  inferInstanceAs (Decidable (returns.isVoid = true ∨ ∀ name ∈ returns.describedBy, _))

theorem isSpelled_defaultMethodName {returns : TypeRef} :
    IsSpelled (defaultMethodName returns) ↔ DescribesValidly returns := by
  unfold defaultMethodName DescribesValidly
  by_cases hvoid : returns.isVoid = true
  · have haction : IsSpelled "DoAction" := by decide +kernel
    simp [hvoid, haction]
  · have hlead : IsSpelled "Get" := by decide +kernel
    rw [if_neg hvoid, isSpelled_append, and_iff_right hlead, TypeRef.isSpelled_pascalName, or_iff_right hvoid]

/-- Default names begin with a capital letter. -/
theorem head?_defaultMethodName (returns : TypeRef) :
    ∃ c ∈ ['D', 'G'], (defaultMethodName returns).toList.head? = some c := by
  unfold defaultMethodName
  split
  · exact ⟨'D', by simp, by decide⟩
  · exact ⟨'G', by simp, by simp [String.toList_append]⟩

namespace NameSlot

/-- A name that is made is valid if its default consists of valid characters. -/
theorem validateName_nameAt {kind : NameKind} (hkind : kind ≠ .ofNamespace) {slots : List NameSlot} {i : Nat}
    {default : String} (hdefault : ∃ c ∈ ['D', 'G'], default.toList.head? = some c) :
    validateName kind (nameAt slots i ⟨none, default⟩) = .ok () ↔ IsSpelled default := by
  obtain ⟨c, hc, hhead⟩ := hdefault
  unfold nameAt
  rw [Option.getD_none]
  split
  · exact validateName_of_capital hkind hc hhead
  · have hnumbered (n : Nat) : (default ++ toString n).toList.head? = some c := by
      rw [String.toList_append, List.head?_append, hhead]
      rfl
    rw [validateName_of_capital hkind hc (hnumbered _), isSpelled_append, and_iff_left (isSpelled_nat _)]

end NameSlot

/-! ### Where the names of methods come from -/

/-- What the name of a method is made of. -/
inductive NameOrigin where
  | given
  /-- The name of the method of an interface that it implements. -/
  | implements (name : String)
  /-- A description of the result. -/
  | describes (returns : TypeRef)

/-- What it takes for the name to be valid. -/
def NameOrigin.IsValid : NameOrigin → Prop
  | .given => True
  | .implements name => validateName .ofMethod name = .ok ()
  | .describes returns => DescribesValidly returns

namespace ClassPlan

/-- The name of the interface method with the signature of a method, if there is one. -/
def implied? (c : ClassPlan) (m : MethodModel) : Option String :=
  match Interface.find? c.interfaces (m.parameters.map (·.ty)) m.returns with
  | .ok found => found.map (·.2.name)
  | .error _ => none

/-- What the name of the method at some place is made of. Those after the methods of the plan are taken
out of them. -/
def origin (c : ClassPlan) (i : Nat) (m : MethodModel) : NameOrigin :=
  match c.methods[i]? with
  | none => .describes m.returns
  | some plan =>
    if plan.name.isSome then .given
    else
      match c.implied? m with
      | some name => .implements name
      | none => .describes m.returns

end ClassPlan

/-! ### Names of classes and methods -/

/-- A method that was asked for, under a name. -/
def ParsedMethod.model (m : ParsedMethod) (name : String) : MethodModel :=
  { name, visibility := .exported, summary := m.summary, parameters := m.parameters
    returns := m.returns, body := m.body }

namespace ClassPlan

variable {settings : Settings} {c : ClassPlan}

theorem slot_eq_of_ok {plan : MethodPlan} {p : ParsedMethod} {s : NameSlot} (h : c.slot plan p = .ok s)
    {m : MethodModel} (hparameters : m.parameters = p.parameters) (hreturns : m.returns = p.returns) :
    s = ⟨plan.name.or (c.implied? m), defaultMethodName m.returns⟩ := by
  unfold slot at h
  unfold implied?
  rw [hparameters, hreturns]
  cases hname : plan.name with
  | some name =>
    rw [hname] at h
    cases h
    rfl
  | none =>
    rw [hname] at h
    obtain ⟨found, hfound, h⟩ := exists_of_bind_ok h
    cases h
    rw [hfound]
    rfl

/-- The slots of a class that is built, those of the blocks that become methods at the end. -/
structure IsSlotted (settings : Settings) (c : ClassPlan) (parsed : List ParsedMethod)
    (slots all : List NameSlot) : Prop where
  plans : c.methods.length = parsed.length
  asked : (c.methods.zip parsed).mapM (fun (plan, m) => c.slot plan m) = .ok slots
  all_eq : all = slots ++ (Extraction.ofMethods settings parsed).map fun x => ⟨none, defaultMethodName x.returns⟩

theorem methods_of_build {name : String} {model : ClassModel} {spaces : List String}
    (h : c.build settings name = .ok (model, spaces)) :
    model.name = name ∧ ∃ parsed slots all, c.IsSlotted settings parsed slots all ∧
      model.methods = parsed.zipWith ParsedMethod.model (NameSlot.resolve all) ++
        (Extraction.ofMethods settings parsed).zipWith Extraction.model
          ((NameSlot.resolve all).drop parsed.length) := by
  unfold build at h
  obtain ⟨parsed, hparsed, h⟩ := exists_of_bind_ok h
  obtain ⟨slots, hslots, h⟩ := exists_of_bind_ok h
  obtain ⟨_, -, h⟩ := exists_of_bind_ok h
  obtain ⟨rfl, -⟩ := Prod.mk.inj (Except.ok.inj h)
  refine ⟨rfl, parsed, slots, _, ⟨(forall₂_of_mapM_ok hparsed).length_eq, hslots, rfl⟩, ?_⟩
  exact congrArg (· ++ _) (List.map_uncurry_zip_eq_zipWith (f := ParsedMethod.model))

namespace IsSlotted

variable {parsed : List ParsedMethod} {slots all : List NameSlot} (h : c.IsSlotted settings parsed slots all)

include h

theorem length_eq : slots.length = parsed.length := by
  have hlength := (forall₂_of_mapM_ok h.asked).length_eq
  rw [List.length_zip, h.plans, Nat.min_self] at hlength
  exact hlength.symm

/-- The slot of a method that was asked for. -/
theorem getElem?_of_lt {i : Nat} {p : ParsedMethod} (hp : parsed[i]? = some p) :
    ∃ plan, c.methods[i]? = some plan ∧ ∃ s, all[i]? = some s ∧ c.slot plan p = .ok s := by
  have hi : i < parsed.length := (List.getElem?_eq_some_iff.mp hp).1
  obtain ⟨plan, hplan⟩ : ∃ plan, c.methods[i]? = some plan := ⟨_, List.getElem?_eq_getElem (h.plans ▸ hi)⟩
  have hentry : (c.methods.zip parsed)[i]? = some (plan, p) := List.getElem?_zip_eq_some.mpr ⟨hplan, hp⟩
  have hslot := map_getElem?_of_mapM_ok h.asked i
  rw [hentry, Option.map_some, eq_comm, Option.map_eq_some_iff] at hslot
  obtain ⟨s, hs, hslot⟩ := hslot
  exact ⟨plan, hplan, s, by rw [h.all_eq, List.getElem?_append_left (h.length_eq ▸ hi), hs], hslot.symm⟩

/-- The slot of a method that was taken out of others. -/
theorem getElem?_add {i : Nat} {x : Extraction} (hx : (Extraction.ofMethods settings parsed)[i]? = some x) :
    c.methods[parsed.length + i]? = none ∧
      all[parsed.length + i]? = some ⟨none, defaultMethodName x.returns⟩ := by
  have hplans := h.plans
  have hlength := h.length_eq
  refine ⟨List.getElem?_eq_none (by omega), ?_⟩
  rw [h.all_eq, List.getElem?_append_right (by omega), hlength, Nat.add_sub_cancel_left, List.getElem?_map, hx]
  rfl

end IsSlotted

/-- The slot that a method of a built class has its name from. -/
theorem exists_slot {name : String} {model : ClassModel} {spaces : List String}
    (h : c.build settings name = .ok (model, spaces)) {i : Nat} {m : MethodModel}
    (hm : model.methods[i]? = some m) :
    ∃ slots : List NameSlot, m.name = NameSlot.nameAt slots i
      ⟨(c.methods[i]?).bind fun plan => plan.name.or (c.implied? m), defaultMethodName m.returns⟩ := by
  obtain ⟨-, parsed, slots, all, hslotted, hmethods⟩ := methods_of_build h
  have hcount : parsed.length ≤ (NameSlot.resolve all).length := by
    rw [NameSlot.length_resolve, hslotted.all_eq, List.length_append, hslotted.length_eq]
    omega
  have hzip : (parsed.zipWith ParsedMethod.model (NameSlot.resolve all)).length = parsed.length := by
    rw [List.length_zipWith, Nat.min_eq_left hcount]
  refine ⟨all, ?_⟩
  rw [hmethods] at hm
  by_cases hi : i < parsed.length
  · rw [List.getElem?_append_left (hzip ▸ hi), List.getElem?_zipWith_eq_some] at hm
    obtain ⟨p, n, hp, hn, rfl⟩ := hm
    obtain ⟨plan, hplan, s, hs, hslot⟩ := hslotted.getElem?_of_lt hp
    rw [NameSlot.getElem?_resolve, hs, Option.map_some] at hn
    rw [hplan, Option.bind_some, ← slot_eq_of_ok hslot rfl rfl]
    exact (Option.some.inj hn).symm
  · obtain ⟨j, rfl⟩ := Nat.exists_eq_add_of_le (Nat.le_of_not_lt hi)
    rw [List.getElem?_append_right (hzip ▸ Nat.le_add_right _ _), hzip, Nat.add_sub_cancel_left,
      List.getElem?_zipWith_eq_some] at hm
    obtain ⟨x, n, hx, hn, rfl⟩ := hm
    obtain ⟨hnone, hs⟩ := hslotted.getElem?_add hx
    rw [List.getElem?_drop, NameSlot.getElem?_resolve, hs, Option.map_some] at hn
    rw [hnone, Option.bind_none]
    exact (Option.some.inj hn).symm

theorem validateName_method (hvalid : c.validate = .ok ()) {name : String} {model : ClassModel}
    {spaces : List String} (h : c.build settings name = .ok (model, spaces)) {i : Nat} {m : MethodModel}
    (hm : model.methods[i]? = some m) :
    validateName .ofMethod m.name = .ok () ↔ (c.origin i m).IsValid := by
  obtain ⟨slots, hname⟩ := exists_slot h hm
  have hdescribes :
      validateName .ofMethod (NameSlot.nameAt slots i ⟨none, defaultMethodName m.returns⟩) = .ok () ↔
        DescribesValidly m.returns := by
    have hkind : NameKind.ofMethod ≠ .ofNamespace := nofun
    rw [NameSlot.validateName_nameAt hkind (head?_defaultMethodName _), isSpelled_defaultMethodName]
  rw [hname, origin]
  cases hplan : c.methods[i]? with
  | none => exact hdescribes
  | some plan =>
    cases hgiven : plan.name with
    | some given =>
      have hok := (forall_names_of_validate hvalid).2 plan (List.mem_of_getElem? hplan) given hgiven
      simpa [hgiven, NameSlot.nameAt, NameOrigin.IsValid] using hok
    | none =>
      simp only [Option.bind_some, hgiven, Option.none_or, Option.isSome_none, Bool.false_eq_true, if_false]
      cases c.implied? m with
      | some implied => exact Iff.rfl
      | none => exact hdescribes

end ClassPlan

namespace SourcePlan

variable {settings : Settings} {p : SourcePlan}

theorem validateName_class (hvalid : ∀ c ∈ p.classes, c.validate = .ok ()) {i : Nat} {c : ClassPlan}
    (hc : p.classes[i]? = some c) :
    validateName .ofClass (NameSlot.nameAt p.slots i ⟨c.name, defaultClassName⟩) = .ok () := by
  cases hname : c.name with
  | some name =>
    exact (ClassPlan.forall_names_of_validate (hvalid c (List.mem_of_getElem? hc))).1 name hname
  | none =>
    have hkind : NameKind.ofClass ≠ .ofNamespace := nofun
    have hdefault : IsSpelled defaultClassName := by decide +kernel
    exact (NameSlot.validateName_nameAt hkind ⟨'G', by simp, by decide⟩).mpr hdefault

/-- **The names of the classes of a file are valid, and which names of methods are is a matter of where
they come from**: those that are given are, those of interfaces are taken as they are, and one that
describes a result is valid if the names of types that it consists of have no other characters than names. -/
theorem validNames {model : SourceModel} (h : p.build settings = .ok model) :
    ∀ (i : Nat) (c : ClassModel), model.classes[i]? = some c → ∃ plan, p.classes[i]? = some plan ∧
      validateName .ofClass c.name = .ok () ∧
      ∀ (j : Nat) (m : MethodModel), c.methods[j]? = some m →
        (validateName .ofMethod m.name = .ok () ↔ (plan.origin j m).IsValid) := by
  obtain ⟨_, hvalid, h⟩ := exists_of_bind_ok h
  obtain ⟨names, hnames, h⟩ := exists_of_bind_ok h
  obtain ⟨built, hbuilt, h⟩ := exists_of_bind_ok h
  cases h
  obtain ⟨_, -, hvalid⟩ := exists_of_bind_ok hvalid
  obtain ⟨_, hclasses, -⟩ := exists_of_bind_ok hvalid
  have hclasses := forall_of_forM_ok hclasses
  intro i c hc
  rw [List.getElem?_map] at hc
  obtain ⟨⟨c, spaces⟩, hentry, rfl⟩ := Option.map_eq_some_iff.mp hc
  have hbuild := map_getElem?_of_mapM_ok hbuilt i
  rw [hentry, Option.map_some, Option.map_eq_some_iff] at hbuild
  obtain ⟨⟨plan, name⟩, hzip, hbuild⟩ := hbuild
  obtain ⟨hplan, hname⟩ := List.getElem?_zip_eq_some.mp hzip
  have hplan' := hclasses plan (List.mem_of_getElem? hplan)
  refine ⟨plan, hplan, ?_, fun j m hm => ClassPlan.validateName_method hplan' hbuild hm⟩
  have hslot : p.slots[i]? = some ⟨plan.name, defaultClassName⟩ := by
    rw [slots, List.getElem?_map, hplan, Option.map_some]
  rw [classNames_eq hnames, ← slots, NameSlot.getElem?_resolve, hslot, Option.map_some] at hname
  have hmade : NameSlot.nameAt p.slots i ⟨plan.name, defaultClassName⟩ = c.name :=
    (Option.some.inj hname).trans (ClassPlan.methods_of_build hbuild).1.symm
  exact hmade ▸ validateName_class hclasses hplan

end SourcePlan

/-- A method that returns `default` of a type that a compiler made for a closure. -/
def capturing : SourcePlan :=
  .ofExpr (.mk 0 (.default { kind := .classType, name := "<>c__DisplayClass0_0", isClosure := true }))

/-- The name of the method describes that type, whose brackets no name has. -/
theorem validNames_capturing : ∃ model, capturing.build {} = .ok model ∧
    ∃ c, model.classes[0]? = some c ∧ ∃ m, c.methods[0]? = some m ∧
      m.name = "Get<>c__DisplayClass0_0" ∧ validateName .ofMethod m.name ≠ .ok () := by
  have hbuilt : (match capturing.build {} with
      | .ok model => model.classes.map fun c => c.methods.map fun m =>
        (m.name, decide (DescribesValidly m.returns))
      | .error _ => []) = [[("Get<>c__DisplayClass0_0", false)]] := by decide +kernel
  cases hmodel : capturing.build {} with
  | error e =>
    rw [hmodel] at hbuilt
    cases hbuilt
  | ok model =>
    rw [hmodel] at hbuilt
    obtain ⟨c, hclasses, hmethods⟩ := List.map_eq_singleton_iff.mp hbuilt
    obtain ⟨m, hm, hname⟩ := List.map_eq_singleton_iff.mp hmethods
    obtain ⟨hname, hdescribed⟩ := Prod.mk.inj hname
    have hc : model.classes[0]? = some c := by rw [hclasses]; rfl
    have hm0 : c.methods[0]? = some m := by rw [hm]; rfl
    obtain ⟨plan, hplan, -, hvalid⟩ := SourcePlan.validNames hmodel 0 c hc
    refine ⟨model, rfl, c, hc, m, hm0, hname, fun hok => ?_⟩
    cases hplan
    have hdescribes : DescribesValidly m.returns := (hvalid 0 m hm0).mp hok
    exact of_decide_eq_false hdescribed hdescribes

end TreeScribe
