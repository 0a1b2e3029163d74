import Mathlib.Data.List.NodupEquivFin
import TreeScribe.Proofs.Source.Extraction

/-! Names that come twice.

A name that is not given is made of a default, with a number once several slots share the default. Names
made of one default differ by their numbers (`NameSlot.Makes.injective`). So a name that comes twice was
given twice, or was given to one slot and made for another, or was made of two defaults of which one is
the other with digits behind it (`NameSlot.duplicate_resolve`). A file is refused for a repeated name in
no other case (`SourcePlan.duplicateName_build`). -/
namespace TreeScribe

/-! ### The check -/

theorem duplicate_of_firstRepeated? {names : List String} {name : String}
    (h : firstRepeated? [] names = some name) : List.Duplicate name names := by
  have hseen (seen names : List String) (h : firstRepeated? seen names = some name) :
      (name ∈ seen ∧ name ∈ names) ∨ List.Duplicate name names := by
    induction names generalizing seen with
    | nil => cases h
    | cons n names ih =>
      rw [firstRepeated?] at h
      split at h
      next hn =>
        cases h
        exact .inl ⟨List.contains_iff_mem.mp hn, List.mem_cons_self ..⟩
      next =>
        rcases ih _ h with ⟨hmem, hlater⟩ | hrepeated
        · rcases List.mem_cons.mp hmem with rfl | hmem
          · exact .inr (List.Mem.duplicate_cons_self hlater)
          · exact .inl ⟨hmem, List.mem_cons_of_mem _ hlater⟩
        · exact .inr (hrepeated.duplicate_cons n)
  rcases hseen [] names h with ⟨hmem, -⟩ | hrepeated
  · cases hmem
  · exact hrepeated

/-- Names are refused only for one that comes twice, and the error tells which. -/
theorem ensureUnique_error {kind : NameKind} {names : List String} {e : SourceError}
    (h : ensureUnique kind names = .error e) : ∃ name, e = .duplicateName kind name ∧ List.Duplicate name names := by
  unfold ensureUnique at h
  split at h
  next name hrepeated =>
    cases h
    exact ⟨name, rfl, duplicate_of_firstRepeated? hrepeated⟩
  next => cases h

theorem validateName_ne_duplicateName {kind kind' : NameKind} {name name' : String} :
    validateName kind name ≠ .error (.duplicateName kind' name') := by
  unfold validateName
  split <;> rintro ⟨⟩

/-! ### Names made of defaults -/

theorem toString_injective {m n : Nat} (h : toString m = toString n) : m = n := by
  have hdigits : Nat.toDigits 10 m = Nat.toDigits 10 n := by
    rw [← Nat.toList_repr, ← Nat.toList_repr]
    exact congrArg String.toList h
  rw [← Nat.ofDigitChars_ten_toDigits (n := m), hdigits, Nat.ofDigitChars_ten_toDigits]

namespace NameSlot

/-- The number of a slot among those with one default. -/
def number (slots : List NameSlot) (default : String) (i : Nat) : Nat :=
  (defaults (slots.take i)).count default + 1

/-- The name that a slot at some place has in the end. -/
def nameAt (slots : List NameSlot) (i : Nat) (s : NameSlot) : String :=
  s.given.getD <|
    if (defaults slots).count s.default ≤ 1 then s.default
    else s.default ++ toString (number slots s.default i)

theorem defaults_append (a b : List NameSlot) : defaults (a ++ b) = defaults a ++ defaults b := by
  rw [defaults, List.filter_append, List.map_append]
  rfl

/-- A name depends on what comes before it only through the number of its default. -/
theorem getElem?_resolveFrom (uses earlier : List String) (slots : List NameSlot) (i : Nat) :
    (resolveFrom uses earlier slots)[i]? = slots[i]?.map fun s =>
      s.given.getD (if uses.count s.default ≤ 1 then s.default
        else s.default ++ toString (earlier.count s.default + number slots s.default i)) := by
  induction slots generalizing earlier i with
  | nil => rfl
  | cons s slots ih =>
    obtain ⟨given, default⟩ := s
    cases i with
    | zero => cases given <;> rfl
    | succ i =>
      cases given with
      | some name => exact ih earlier i
      | none =>
        refine (ih (default :: earlier) i).trans (congrArg (Option.map · slots[i]?) (funext fun s => ?_))
        have hnumber : number (⟨none, default⟩ :: slots) s.default (i + 1) =
            [default].count s.default + number slots s.default i := by
          show ([default] ++ defaults (slots.take i)).count s.default + 1 = _
          rw [List.count_append, Nat.add_assoc]
          rfl
        have hearlier : (default :: earlier).count s.default =
            earlier.count s.default + [default].count s.default := by
          rw [← List.count_append]
          exact (List.perm_append_singleton default earlier).symm.count_eq _
        rw [hnumber, hearlier, Nat.add_assoc]

theorem getElem?_resolve (slots : List NameSlot) (i : Nat) :
    (resolve slots)[i]? = slots[i]?.map (nameAt slots i) := by
  rw [resolve, getElem?_resolveFrom]
  refine congrArg (Option.map · slots[i]?) (funext fun s => ?_)
  rw [List.count_nil, Nat.zero_add]
  rfl

/-- A slot without a name of its own got this one for its default. -/
def Makes (slots : List NameSlot) (i : Nat) (default name : String) : Prop :=
  slots[i]? = some ⟨none, default⟩ ∧ (resolve slots)[i]? = some name

namespace Makes

variable {slots : List NameSlot} {i j : Nat} {default default' name : String}

theorem eq_nameAt (h : Makes slots i default name) : nameAt slots i ⟨none, default⟩ = name := by
  obtain ⟨hslot, hname⟩ := h
  rw [getElem?_resolve, hslot] at hname
  exact Option.some.inj hname

/-- A slot without a name adds its default to those that come before a later one. -/
theorem sublist (h : Makes slots i default name) (hij : i < j) :
    (defaults (slots.take i) ++ [default]).Sublist (defaults (slots.take j)) := by
  have htake : slots.take i ++ [⟨none, default⟩] = slots.take (i + 1) := by
    rw [List.take_add_one, h.1]
    rfl
  show (defaults (slots.take i) ++ defaults [⟨none, default⟩]).Sublist _
  rw [← defaults_append, htake]
  exact ((List.take_sublist_take_left hij).filter _).map _

/-- Names made of one default differ. -/
theorem injective (hi : Makes slots i default name) (hj : Makes slots j default name) : i = j := by
  -- of two slots the later one has the greater number, and there are at least two to be numbered
  have hlt (i j : Nat) (hi : Makes slots i default name) (hj : Makes slots j default name) : ¬i < j := by
    intro hij
    have hnumber : number slots default i < number slots default j := by
      have hcount := (hi.sublist hij).count_le default
      rw [List.count_append, List.count_singleton_self] at hcount
      exact Nat.succ_lt_succ hcount
    have hshared : ¬(defaults slots).count default ≤ 1 := by
      have hlength : j < slots.length := (List.getElem?_eq_some_iff.mp hj.1).1
      have hcount := (hj.sublist hlength).count_le default
      rw [List.take_length, List.count_append, List.count_singleton_self] at hcount
      unfold number at hnumber
      omega
    have hname : default ++ toString (number slots default i) =
        default ++ toString (number slots default j) := by
      have hname := hi.eq_nameAt.trans hj.eq_nameAt.symm
      unfold nameAt at hname
      simpa only [Option.getD_none, if_neg hshared] using hname
    exact absurd (toString_injective (String.append_right_inj default |>.mp hname)) hnumber.ne
  have hle := Nat.not_lt.mp (hlt i j hi hj)
  have hge := Nat.not_lt.mp (hlt j i hj hi)
  omega

/-- A name consists of a default and then digits, if any. -/
theorem digits (h : Makes slots i default name) :
    ∃ digits : List Char, digits.all Char.isDigit ∧ name.toList = default.toList ++ digits := by
  have hname := h.eq_nameAt
  unfold nameAt at hname
  dsimp only [Option.getD_none] at hname
  split at hname
  · exact ⟨[], rfl, by rw [← hname, List.append_nil]⟩
  · refine ⟨(toString (number slots default i)).toList, ?_, by rw [← hname, String.toList_append]⟩
    rw [List.all_eq_true]
    intro c hc
    exact Nat.isDigit_of_mem_toDigits (by decide) (by decide) (Nat.toList_repr ▸ hc)

end Makes

/-- The one default is the other one with digits behind it. -/
def Extends (longer shorter : String) : Prop :=
  ∃ digits : List Char, digits ≠ [] ∧ digits.all Char.isDigit ∧ longer.toList = shorter.toList ++ digits

/-- If different defaults give one name, one of them is the other with digits behind it. -/
theorem Makes.extends {slots : List NameSlot} {i j : Nat} {default default' name : String}
    (hi : Makes slots i default name) (hj : Makes slots j default' name) (hne : default ≠ default') :
    Extends default default' ∨ Extends default' default := by
  obtain ⟨digits, hdigits, hname⟩ := hi.digits
  obtain ⟨digits', hdigits', hname'⟩ := hj.digits
  have hnonempty {longer shorter : String} {ds : List Char}
      (h : longer.toList = shorter.toList ++ ds) (hne : longer ≠ shorter) : ds ≠ [] := by
    rintro rfl
    rw [List.append_nil] at h
    exact hne (String.toList_inj.mp h)
  rcases List.append_eq_append_iff.mp (hname.symm.trans hname') with ⟨ds, hds, hrest⟩ | ⟨ds, hds, hrest⟩
  · rw [hrest, List.all_append, Bool.and_eq_true] at hdigits
    exact .inr ⟨ds, hnonempty hds hne.symm, hdigits.1, hds⟩
  · rw [hrest, List.all_append, Bool.and_eq_true] at hdigits'
    exact .inl ⟨ds, hnonempty hds hne, hdigits'.1, hds⟩

/-! ### Slots with one name -/

/-- The names that are given. -/
def givens (slots : List NameSlot) : List String := slots.filterMap (·.given)

/-- What it takes for a name to come twice. -/
inductive Clash (slots : List NameSlot) (name : String) : Prop where
  /-- It is given twice. -/
  | given (h : List.Duplicate name (givens slots))
  /-- It is given to one slot and made for another. -/
  | made {i : Nat} {default : String} (h : name ∈ givens slots) (hi : Makes slots i default name)
  /-- It is made of two defaults. -/
  | numbered {i j : Nat} {longer shorter : String} (hi : Makes slots i longer name)
      (hj : Makes slots j shorter name) (h : Extends longer shorter)

theorem duplicate_givens {slots : List NameSlot} {i j : Nat} {s s' : NameSlot} {name : String}
    (hij : i < j) (hi : slots[i]? = some s) (hj : slots[j]? = some s') (hs : s.given = some name)
    (hs' : s'.given = some name) : List.Duplicate name (givens slots) := by
  obtain ⟨hi, rfl⟩ := List.getElem?_eq_some_iff.mp hi
  obtain ⟨hj, rfl⟩ := List.getElem?_eq_some_iff.mp hj
  have hmap : List.Duplicate (some name) (slots.map (·.given)) := by
    refine List.duplicate_iff_exists_distinct_get.mpr
      ⟨⟨i, by rwa [List.length_map]⟩, ⟨j, by rwa [List.length_map]⟩, hij, ?_, ?_⟩
    · simpa using hs.symm
    · simpa using hs'.symm
  have hgivens := (List.duplicate_iff_sublist.mp hmap).filterMap id
  rw [List.filterMap_map] at hgivens
  exact List.duplicate_iff_sublist.mpr hgivens

/-- A name that comes twice was given twice, or given and made, or made of two defaults. -/
theorem duplicate_resolve {slots : List NameSlot} {name : String} (h : List.Duplicate name (resolve slots)) :
    Clash slots name := by
  obtain ⟨i, j, hij, hi, hj⟩ := List.duplicate_iff_exists_distinct_get.mp h
  have hget (i : Fin (resolve slots).length) (hi : name = (resolve slots).get i) :
      (resolve slots)[i.1]? = some name := by
    rw [hi]
    exact List.getElem?_eq_getElem i.2
  have hslot (i : Fin (resolve slots).length) (hi : name = (resolve slots).get i) :
      ∃ s, slots[i.1]? = some s ∧ nameAt slots i s = name := by
    have hname := hget i hi
    rw [getElem?_resolve] at hname
    exact Option.map_eq_some_iff.mp hname
  obtain ⟨⟨given, default⟩, hs, hname⟩ := hslot i hi
  obtain ⟨⟨given', default'⟩, hs', hname'⟩ := hslot j hj
  cases given with
  | some given =>
    obtain rfl : given = name := hname
    cases given' with
    | some given' =>
      obtain rfl : given' = _ := hname'
      exact .given (duplicate_givens hij hs hs' rfl rfl)
    | none => exact .made (List.mem_filterMap.mpr ⟨_, List.mem_of_getElem? hs, rfl⟩) ⟨hs', hget j hj⟩
  | none =>
    have hmakes : Makes slots i default name := ⟨hs, hget i hi⟩
    cases given' with
    | some given' =>
      obtain rfl : given' = name := hname'
      exact .made (List.mem_filterMap.mpr ⟨_, List.mem_of_getElem? hs', rfl⟩) hmakes
    | none =>
      have hmakes' : Makes slots j default' name := ⟨hs', hget j hj⟩
      by_cases hdefault : default = default'
      · subst hdefault
        exact absurd (hmakes.injective hmakes') (Nat.ne_of_lt hij)
      · rcases hmakes.extends hmakes' hdefault with hextends | hextends
        · exact .numbered hmakes hmakes' hextends
        · exact .numbered hmakes' hmakes hextends

end NameSlot

/-! ### Classes -/

theorem ParsedMethod.ofPlan_ne_duplicateName {m : MethodPlan} {kind : NameKind} {name : String} :
    ofPlan m ≠ .error (.duplicateName kind name) := by
  intro h
  have hannotated (es : List Expr) : ofAnnotated es ≠ .error (.duplicateName kind name) := by
    unfold ofAnnotated
    repeat' split
    all_goals rintro ⟨⟩
  rcases error_of_bind h with h | ⟨parsed, -, h⟩
  · unfold ofExpr at h
    dsimp only at h
    split at h
    · cases h
    · split at h
      · exact hannotated _ h
      · split at h <;> cases h
    · cases h
  · cases h

namespace ClassPlan

/-- The slots of a class: its methods, and then the blocks that are taken out of them. -/
def slots (settings : Settings) (c : ClassPlan) (parsed : List ParsedMethod) : List NameSlot :=
  c.methods.zipWith (fun m p => ⟨m.name, defaultMethodName p.returns⟩) parsed ++
    (Extraction.ofMethods settings parsed).map fun x => ⟨none, defaultMethodName x.returns⟩

variable {settings : Settings} {c : ClassPlan} {kind : NameKind} {name name' : String}

theorem givens_slots {parsed : List ParsedMethod} (h : c.methods.length = parsed.length) :
    NameSlot.givens (c.slots settings parsed) = c.givenNames := by
  have hextracted (xs : List Extraction) :
      NameSlot.givens (xs.map fun x => ⟨none, defaultMethodName x.returns⟩) = [] := by
    rw [NameSlot.givens, List.filterMap_map]
    exact List.filterMap_eq_nil_iff.mpr fun _ _ => rfl
  have hmethods (ms : List MethodPlan) (ps : List ParsedMethod) (h : ms.length = ps.length) :
      NameSlot.givens (ms.zipWith (fun m p => ⟨m.name, defaultMethodName p.returns⟩) ps) =
        ms.filterMap (·.name) := by
    unfold NameSlot.givens
    rw [← List.map_uncurry_zip_eq_zipWith, List.filterMap_map]
    conv_rhs => rw [← List.map_fst_zip h.le, List.filterMap_map]
    rfl
  have happend (a b : List NameSlot) :
      NameSlot.givens (a ++ b) = NameSlot.givens a ++ NameSlot.givens b := List.filterMap_append
  rw [slots, happend, hmethods _ _ h, hextracted, List.append_nil]
  rfl

/-- Without interfaces, methods have the names that they are given. -/
theorem slot_eq (hinterfaces : c.interfaces = []) (m : MethodPlan) (p : ParsedMethod) :
    c.slot m p = .ok ⟨m.name, defaultMethodName p.returns⟩ := by
  unfold slot
  rw [hinterfaces]
  cases m.name <;> rfl

theorem duplicateName_validate (h : c.validate = .error (.duplicateName kind name)) :
    kind = .ofMethod ∧ List.Duplicate name c.givenNames := by
  rcases error_of_bind h with h | ⟨_, -, h⟩
  · cases hname : c.name with
    | none =>
      rw [hname] at h
      cases h
    | some n =>
      rw [hname] at h
      exact absurd h validateName_ne_duplicateName
  · rcases error_of_bind h with h | ⟨_, -, h⟩
    · obtain ⟨n, -, h⟩ := exists_of_forM_error h
      exact absurd h validateName_ne_duplicateName
    · obtain ⟨n, hn, hduplicate⟩ := ensureUnique_error h
      cases hn
      exact ⟨rfl, hduplicate⟩

theorem mapM_slot (hinterfaces : c.interfaces = []) (parsed : List ParsedMethod) :
    (c.methods.zip parsed).mapM (fun (m, p) => c.slot m p) =
      .ok (c.methods.zipWith (fun m p => ⟨m.name, defaultMethodName p.returns⟩) parsed) := by
  rw [← List.map_uncurry_zip_eq_zipWith]
  have hslot : (fun (m, p) => c.slot m p) = fun entry : MethodPlan × ParsedMethod =>
      (pure ⟨entry.1.name, defaultMethodName entry.2.returns⟩ : Except SourceError NameSlot) :=
    funext fun (m, p) => slot_eq hinterfaces m p
  rw [hslot]
  exact List.mapM_pure

theorem duplicate_of_build (hinterfaces : c.interfaces = [])
    (h : c.build settings name' = .error (.duplicateName kind name)) :
    kind = .ofMethod ∧ ∃ parsed, List.Forall₂ (fun m p => ParsedMethod.ofPlan m = .ok p) c.methods parsed ∧
      NameSlot.Clash (c.slots settings parsed) name := by
  unfold build at h
  rcases error_of_bind h with h | ⟨parsed, hparsed, h⟩
  · obtain ⟨m, -, h⟩ := exists_of_mapM_error h
    exact absurd h ParsedMethod.ofPlan_ne_duplicateName
  rcases error_of_bind h with h | ⟨slots, hslots, h⟩
  · cases (mapM_slot hinterfaces parsed).symm.trans h
  cases (mapM_slot hinterfaces parsed).symm.trans hslots
  rcases error_of_bind h with h | ⟨_, -, h⟩
  · obtain ⟨n, hn, hduplicate⟩ := ensureUnique_error h
    cases hn
    exact ⟨rfl, parsed, forall₂_of_mapM_ok hparsed, NameSlot.duplicate_resolve hduplicate⟩
  · cases h

end ClassPlan

/-! ### Files -/

namespace SourcePlan

/-- The slots of the classes of a file. -/
def slots (p : SourcePlan) : List NameSlot := p.classes.map fun c => ⟨c.name, defaultClassName⟩

def givenNames (p : SourcePlan) : List String := p.classes.filterMap (·.name)

variable {settings : Settings} {p : SourcePlan} {kind : NameKind} {name : String}

theorem givens_slots : NameSlot.givens p.slots = p.givenNames := List.filterMap_map

theorem duplicateName_classNames (h : p.classNames = .error (.duplicateName kind name)) :
    kind = .ofClass ∧ NameSlot.Clash p.slots name := by
  unfold classNames at h
  split at h
  · cases h
  rcases error_of_bind h with h | ⟨_, -, h⟩
  · obtain ⟨n, hn, hduplicate⟩ := ensureUnique_error h
    cases hn
    exact ⟨rfl, NameSlot.duplicate_resolve hduplicate⟩
  · split at h <;> cases h

/-- The ways in which a name comes twice in a file whose classes have no interfaces. -/
inductive Repeats (settings : Settings) (p : SourcePlan) : NameKind → String → Prop where
  /-- Two classes are given it. -/
  | classes {name : String} (h : List.Duplicate name p.givenNames) : Repeats settings p .ofClass name
  /-- One class is given it, and it is made for an unnamed class. -/
  | madeClass {name : String} {i : Nat} (h : name ∈ p.givenNames)
      (hi : NameSlot.Makes p.slots i defaultClassName name) : Repeats settings p .ofClass name
  /-- Two methods of a class are given it. -/
  | methods {name : String} {c : ClassPlan} (hc : c ∈ p.classes) (h : List.Duplicate name c.givenNames) :
      Repeats settings p .ofMethod name
  /-- One method of a class is given it, and it is made for one that is unnamed or extracted. -/
  | madeMethod {name default : String} {c : ClassPlan} {parsed : List ParsedMethod} {i : Nat}
      (hc : c ∈ p.classes)
      (hparsed : List.Forall₂ (fun m q => ParsedMethod.ofPlan m = .ok q) c.methods parsed)
      (h : name ∈ c.givenNames) (hi : NameSlot.Makes (c.slots settings parsed) i default name) :
      Repeats settings p .ofMethod name
  /-- It is made for two methods of a class, of defaults of which one is the other with digits behind
  it. -/
  | numbered {name longer shorter : String} {c : ClassPlan} {parsed : List ParsedMethod} {i j : Nat}
      (hc : c ∈ p.classes)
      (hparsed : List.Forall₂ (fun m q => ParsedMethod.ofPlan m = .ok q) c.methods parsed)
      (hi : NameSlot.Makes (c.slots settings parsed) i longer name)
      (hj : NameSlot.Makes (c.slots settings parsed) j shorter name)
      (h : NameSlot.Extends longer shorter) : Repeats settings p .ofMethod name

theorem repeats_of_validate (h : p.validate = .error (.duplicateName kind name)) :
    p.Repeats settings kind name := by
  rcases error_of_bind h with h | ⟨_, -, h⟩
  · exact absurd h validateName_ne_duplicateName
  rcases error_of_bind h with h | ⟨_, -, h⟩
  · obtain ⟨c, hc, h⟩ := exists_of_forM_error h
    obtain ⟨rfl, hduplicate⟩ := ClassPlan.duplicateName_validate h
    exact .methods hc hduplicate
  · obtain ⟨n, hn, hduplicate⟩ := ensureUnique_error h
    cases hn
    exact .classes hduplicate

/-- All unnamed classes share one default, so that what is made for them does not clash. -/
theorem repeats_of_clash (h : NameSlot.Clash p.slots name) : p.Repeats settings .ofClass name := by
  have hdefault {i : Nat} {default name : String} (h : NameSlot.Makes p.slots i default name) :
      default = defaultClassName := by
    obtain ⟨c, -, hc⟩ := List.mem_map.mp (List.mem_of_getElem? h.1)
    exact ((NameSlot.mk.injEq ..).mp hc).2.symm
  cases h with
  | given h => exact .classes (givens_slots ▸ h)
  | made h hi => exact .madeClass (givens_slots ▸ h) (hdefault hi ▸ hi)
  | numbered hi hj h =>
    obtain ⟨digits, hne, -, hlonger⟩ := h
    rw [hdefault hi, hdefault hj, List.self_eq_append_right] at hlonger
    exact absurd hlonger hne

/-- **A file without interfaces is refused for a repeated name only if** the name is given twice, or is
given and made for a default, or is made of two defaults that differ by digits. -/
theorem duplicateName_build (hinterfaces : ∀ c ∈ p.classes, c.interfaces = [])
    (h : p.build settings = .error (.duplicateName kind name)) : p.Repeats settings kind name := by
  rcases error_of_bind h with h | ⟨_, -, h⟩
  · exact repeats_of_validate h
  rcases error_of_bind h with h | ⟨names, -, h⟩
  · obtain ⟨rfl, hclash⟩ := duplicateName_classNames h
    exact repeats_of_clash hclash
  rcases error_of_bind h with h | ⟨_, -, h⟩
  · obtain ⟨⟨c, name'⟩, hentry, h⟩ := exists_of_mapM_error h
    have hc := (List.of_mem_zip hentry).1
    obtain ⟨rfl, parsed, hparsed, hclash⟩ := ClassPlan.duplicate_of_build (hinterfaces c hc) h
    have hgivens : NameSlot.givens (c.slots settings parsed) = c.givenNames :=
      c.givens_slots hparsed.length_eq
    cases hclash with
    | given h => exact .methods hc (hgivens ▸ h)
    | made h hi => exact .madeMethod hc hparsed (hgivens ▸ h) hi
    | numbered hi hj h => exact .numbered hc hparsed hi hj h
  · cases h

end SourcePlan

/-! ### Files that are refused although all given names differ -/

/-- Files that are refused, with the kind and the name of the refusal. -/
def refusals : List (SourcePlan × NameKind × String) :=
  let one : Expr := .mk 0 (.constant ⟨.int 1, .int⟩)
  let block : Expr := .mk 1 (.block [] [.mk 2 (.constant ⟨.int 1, .int⟩), .mk 3 (.constant ⟨.int 2, .int⟩)] .int)
  let value (name : String) : Expr := .mk 0 (.default (.named .struct "Demo" name))
  [ ({ classes := [{ name := some "GeneratedExpressionClass", methods := [{ body := one }] },
        { methods := [{ body := one }] }] }, .ofClass, "GeneratedExpressionClass"),
    ({ classes := [{ methods := [{ name := some "GetInt", body := one }, { body := one }] }] },
      .ofMethod, "GetInt"),
    -- `-{ 1; 2 }`, of which the block becomes a method
    ({ classes := [{ methods := [{ name := some "GetInt", body := .mk 0 (.unary .negate (some block) .int none) }] }] },
      .ofMethod, "GetInt"),
    ({ classes := [{ methods := [{ body := value "A" }, { body := value "A" }, { body := value "A1" }] }] },
      .ofMethod, "GetA1") ]

theorem build_refusals : ∀ r ∈ refusals, r.1.build {} = .error (.duplicateName r.2.1 r.2.2) := by
  -- that models are equal cannot be decided, but no model is made here
  have hall : ∀ r ∈ refusals, (r.1.build {}).map (fun _ => ()) = .error (.duplicateName r.2.1 r.2.2) := by
    decide +kernel
  intro r hr
  have herror := hall r hr
  cases hbuild : r.1.build {} with
  | error e =>
    rw [hbuild] at herror
    exact congrArg Except.error (Except.error.inj herror)
  | ok model =>
    rw [hbuild] at herror
    cases herror

/-- A default clashes with a given name, as the name of a class, of a method and of an extracted method,
and with the number of another default. -/
theorem refusals_without_repetition : refusals.Forall fun r =>
    (∀ c ∈ r.1.classes, c.interfaces = []) ∧ r.1.build {} = .error (.duplicateName r.2.1 r.2.2) ∧
      r.1.givenNames.Nodup ∧ ∀ c ∈ r.1.classes, c.givenNames.Nodup := by
  have hnames : ∀ r ∈ refusals, (∀ c ∈ r.1.classes, c.interfaces = []) ∧ r.1.givenNames.Nodup ∧
      ∀ c ∈ r.1.classes, c.givenNames.Nodup := by decide +kernel
  refine List.forall_iff_forall_mem.mpr fun r hr => ?_
  obtain ⟨hinterfaces, hgiven⟩ := hnames r hr
  exact ⟨hinterfaces, build_refusals r hr, hgiven⟩

/-- What each of these files repeats is a name that is made for a default. -/
theorem repeats_refusals : refusals.Forall fun r =>
    (∀ c ∈ r.1.classes, c.interfaces = []) ∧ r.1.build {} = .error (.duplicateName r.2.1 r.2.2) ∧
      r.1.Repeats {} r.2.1 r.2.2 := by
  have hinterfaces : ∀ r ∈ refusals, ∀ c ∈ r.1.classes, c.interfaces = [] := by decide +kernel
  refine List.forall_iff_forall_mem.mpr fun r hr => ?_
  have hbuild := build_refusals r hr
  exact ⟨hinterfaces r hr, hbuild, SourcePlan.duplicateName_build (hinterfaces r hr) hbuild⟩

end TreeScribe
