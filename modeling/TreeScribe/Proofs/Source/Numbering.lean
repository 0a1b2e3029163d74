import Mathlib.Data.List.Count
import TreeScribe.Proofs.Source.Names

/-! The numbers of names that are made of one default.

The slots that come without a name and share a default are numbered in their order, from one on and without
gaps; a default that only one of them has is taken as it is. This says of every slot what name it gets
(`NameSlot.numbered_iff`), and slots that come with a name do not matter for the others (`NameSlot.made_resolve`). -/
namespace TreeScribe.NameSlot

/-- The places of the slots that come without a name and have this default, in order. -/
def places (slots : List NameSlot) (default : String) : List Nat := slots.idxsOf ⟨none, default⟩

/-- The slots that come without a name. -/
def unnamed (slots : List NameSlot) : List NameSlot := slots.filter (·.given.isNone)

/-- Of the names of slots those that were made. -/
def made (slots : List NameSlot) (names : List String) : List String :=
  ((slots.zip names).filter (·.1.given.isNone)).map (·.2)

/-- What names the slots have. -/
structure Numbered (slots : List NameSlot) (names : List String) : Prop where
  length : names.length = slots.length
  /-- A given name is kept. -/
  given {i : Nat} {name default : String} (h : slots[i]? = some ⟨some name, default⟩) : names[i]? = some name
  /-- A default that one slot uses is its name. -/
  single {i : Nat} {default : String} (h : places slots default = [i]) : names[i]? = some default
  /-- A default that several slots use is numbered from one on. -/
  shared {default : String} (h : 1 < (places slots default).length) :
    (places slots default).map (names[·]?) =
      (List.range (places slots default).length).map fun k => some (default ++ toString (k + 1))
  /-- No two of these have the same name. -/
  distinct (default : String) : ((places slots default).map (names[·]?)).Nodup
  /-- The other slots do not matter. -/
  alone : made slots names = resolve (unnamed slots)

variable {slots : List NameSlot} {default : String} {i k : Nat}

/-! ### Places -/

theorem mem_places : i ∈ places slots default ↔ slots[i]? = some ⟨none, default⟩ := by
  rw [places, List.mem_idxsOf_iff_exists_getElem_pos, List.getElem?_eq_some_iff]
  simp

theorem count_defaults (slots : List NameSlot) (default : String) :
    (defaults slots).count default = slots.count ⟨none, default⟩ := by
  rw [defaults, List.count_eq_countP, List.countP_map, List.countP_filter, List.count_eq_countP]
  refine List.countP_congr fun s _ => ?_
  obtain ⟨given, default'⟩ := s
  cases given <;> simp

theorem length_places (slots : List NameSlot) (default : String) :
    (places slots default).length = (defaults slots).count default := by
  rw [places, List.length_idxsOf, count_defaults]

/-- The number of a slot is its position among those with the same default. -/
theorem number_of_places (h : (places slots default)[k]? = some i) : number slots default i = k + 1 := by
  obtain ⟨hk, rfl⟩ := List.getElem?_eq_some_iff.mp h
  have hcount : k < slots.count ⟨none, default⟩ := by rwa [places, List.length_idxsOf] at hk
  rw [number, count_defaults, ← List.countBefore_eq_count_take]
  simp only [places, List.getElem_idxOf_eq_idxOfNth]
  rw [List.countBefore_idxOfNth_of_lt_count hcount]

/-! ### Names -/

/-- The name of a slot that comes without one. -/
theorem getElem?_resolve_of_places (h : (places slots default)[k]? = some i) :
    (resolve slots)[i]? =
      some (if (places slots default).length ≤ 1 then default else default ++ toString (k + 1)) := by
  rw [getElem?_resolve, mem_places.mp (List.mem_of_getElem? h), Option.map_some, nameAt, Option.getD_none,
    number_of_places h, length_places]

theorem resolveFrom_made (uses earlier : List String) (slots : List NameSlot) :
    made slots (resolveFrom uses earlier slots) = resolveFrom uses earlier (unnamed slots) := by
  induction slots generalizing earlier with
  | nil => rfl
  | cons s slots ih =>
    obtain ⟨given, default⟩ := s
    cases given with
    | some name => exact ih earlier
    | none => exact congrArg (_ :: ·) (ih (default :: earlier))

theorem defaults_unnamed (slots : List NameSlot) : defaults (unnamed slots) = defaults slots := by
  rw [defaults, unnamed, List.filter_filter]
  simp [defaults]

/-- Slots that come with a name do not matter for the names of the others. -/
theorem made_resolve (slots : List NameSlot) : made slots (resolve slots) = resolve (unnamed slots) := by
  rw [resolve, resolve, defaults_unnamed, resolveFrom_made]

theorem numbered_resolve (slots : List NameSlot) : Numbered slots (resolve slots) where
  length := length_resolve slots
  given h := by rw [getElem?_resolve, h]; rfl
  single {i default} h := by
    have hname := getElem?_resolve_of_places (k := 0) (by rw [h]; rfl)
    rw [h] at hname
    exact hname
  shared {default} h := by
    refine List.ext_getElem (by simp) fun k hk _ => ?_
    rw [List.length_map] at hk
    rw [List.getElem_map, List.getElem_map, List.getElem_range,
      getElem?_resolve_of_places (List.getElem?_eq_getElem hk), if_neg (Nat.not_le.mpr h)]
  distinct default := by
    refine List.Nodup.map_on (fun i hi j hj hnames => ?_) List.nodup_idxsOf
    obtain ⟨k, hk⟩ := List.mem_iff_getElem?.mp hi
    have hname := getElem?_resolve_of_places hk
    exact Makes.injective ⟨mem_places.mp hi, hname⟩ ⟨mem_places.mp hj, hnames ▸ hname⟩
  alone := made_resolve slots

/-- The name of a slot that comes without one, as the numbering has it. -/
theorem Numbered.getElem?_of_places {names : List String} (h : Numbered slots names)
    (hplace : (places slots default)[k]? = some i) :
    names[i]? = some (if (places slots default).length ≤ 1 then default else default ++ toString (k + 1)) := by
  obtain ⟨hk, hi⟩ := List.getElem?_eq_some_iff.mp hplace
  split
  next hsingle =>
    have hone : (places slots default).length = 1 := by omega
    obtain ⟨j, hj⟩ := List.length_eq_one_iff.mp hone
    obtain rfl : i = j := by simpa [hj] using List.mem_of_getElem? hplace
    exact h.single hj
  next hshared =>
    have hnames := congrArg (·[k]?) (h.shared (Nat.not_le.mp hshared))
    simpa [hplace, hk, hi] using hnames

/-- **The names of slots are the ones that are numbered in this way.** -/
theorem numbered_iff (slots : List NameSlot) (names : List String) :
    Numbered slots names ↔ names = resolve slots := by
  refine ⟨fun h => List.ext_getElem? fun i => ?_, fun h => h ▸ numbered_resolve slots⟩
  have hresolve := numbered_resolve slots
  cases hslot : slots[i]? with
  | none =>
    have hlength : slots.length ≤ i := List.getElem?_eq_none_iff.mp hslot
    rw [List.getElem?_eq_none (h.length ▸ hlength), List.getElem?_eq_none (hresolve.length ▸ hlength)]
  | some s =>
    obtain ⟨given, default⟩ := s
    cases given with
    | some name => rw [h.given hslot, hresolve.given hslot]
    | none =>
      obtain ⟨k, hplace⟩ := List.mem_iff_getElem?.mp (mem_places.mpr hslot)
      rw [h.getElem?_of_places hplace, hresolve.getElem?_of_places hplace]

/-- The given name is not counted among those of its default. -/
example :
    resolve [⟨none, "GetInt"⟩, ⟨some "Total", "GetInt"⟩, ⟨none, "GetString"⟩, ⟨none, "GetInt"⟩] =
      ["GetInt1", "Total", "GetString", "GetInt2"] := by decide +kernel

end TreeScribe.NameSlot
