import Mathlib.Data.List.Nodup
import TreeScribe.Json.Field
import TreeScribe.Proofs.Json.Parse

/-! Fields that were written are read.

A value is kept by its stored form if it is read from it (`Stores`). What holds of the parts holds of lists
and of fields that may be left out; and what is nested in a value is less deep than it. -/
namespace TreeScribe.Json

variable {α β : Type}

/-! ### Depth -/

theorem depth_le_depthList {item : Json} {items : List Json} (h : item ∈ items) :
    item.depth ≤ depthList items := by
  induction items with
  | nil => cases h
  | cons first items ih =>
    rw [depthList]
    rcases List.mem_cons.mp h with rfl | h
    · exact Nat.le_max_left ..
    · exact Nat.le_trans (ih h) (Nat.le_max_right ..)

theorem depth_le_depthFields {field : String × Json} {fields : List (String × Json)} (h : field ∈ fields) :
    field.2.depth ≤ depthFields fields := by
  induction fields with
  | nil => cases h
  | cons first fields ih =>
    rw [depthFields]
    rcases List.mem_cons.mp h with rfl | h
    · exact Nat.le_max_left ..
    · exact Nat.le_trans (ih h) (Nat.le_max_right ..)

theorem depth_lt_array {item : Json} {items : List Json} (h : item ∈ items) :
    item.depth < (Json.array items).depth := by
  rw [depth]
  exact Nat.lt_succ_of_le (depth_le_depthList h)

theorem depth_lt_object {key : String} {value : Json} {fields : List (String × Json)}
    (h : (key, value) ∈ fields) : value.depth < (Json.object fields).depth := by
  rw [depth]
  exact Nat.lt_succ_of_le (depth_le_depthFields h)

theorem depth_lt_ofList (write : α → Json) {l : List α} {a : α} (h : a ∈ l) :
    (write a).depth < (ofList write l).depth :=
  depth_lt_array (List.mem_map_of_mem h)

theorem depth_ofOption (write : α → Json) {o : Option α} {a : α} (h : a ∈ o) :
    (ofOption write o).depth = (write a).depth := by
  cases h
  rfl

/-! ### Fields -/

/-- Where no field stands twice, a field that is asked for is looked up. -/
theorem member?_object {fields : List (String × Json)} (h : (fields.map Prod.fst).Nodup) (key : String) :
    (object fields).member? key = some (fields.lookup key) := by
  rw [member?]
  induction fields with
  | nil => rfl
  | cons field fields ih =>
    obtain ⟨name, value⟩ := field
    obtain ⟨hname, hrest⟩ := List.nodup_cons.mp h
    by_cases hkey : name = key
    · subst hkey
      have hnone : fields.filter (·.1 == name) = [] :=
        List.filter_eq_nil_iff.mpr fun f hf heq => hname (List.mem_map.mpr ⟨f, hf, eq_of_beq heq⟩)
      simp [hnone]
    · rw [List.filter_cons_of_neg (by simpa using hkey), List.lookup_cons,
        beq_eq_false_iff_ne.mpr (Ne.symm hkey)]
      exact ih hrest

example : (object [("kind", .null), ("kind", .null)]).member? "kind" = none := rfl

/-! ### Values -/

theorem asNatBelow?_ofNat {bound n : Nat} (h : n < bound) : asNatBelow? bound (ofNat n) = some n := by
  simp [asNatBelow?, ofNat, h]

theorem asSigned?_ofInt {n : Int} (hlow : -(2 ^ 63) ≤ n) (hhigh : n < 2 ^ 63) :
    asSigned? (ofInt n) = some n := by
  unfold asSigned? ofInt
  exact if_pos (by simpa using ⟨hlow, hhigh⟩)

theorem char?_singleton (c : Char) : char? (.string (String.singleton c)) = some c := by
  simp [char?, asString?]

theorem oneOf?_name {name : α → String} {all : List α} {a : α} (hmem : a ∈ all)
    (hnames : (all.map name).Nodup) : oneOf? name all (.string (name a)) = some a := by
  show all.find? (name · == name a) = some a
  cases hfind : all.find? (name · == name a) with
  | none => exact absurd (beq_self_eq_true _) (List.find?_eq_none.mp hfind a hmem)
  | some b =>
    have hname : name b = name a := eq_of_beq (List.find?_some (p := (name · == name a)) hfind)
    exact congrArg some (List.inj_on_of_nodup_map hnames (List.mem_of_find?_eq_some hfind) hmem hname)

theorem string_ne_null (s : String) : Json.string s ≠ .null := nofun

/-! ### Stored values -/

/-- A value is read from its stored form, and the numbers of the stored form from their texts. -/
structure Stores (read : Json → Option α) (j : Json) (a : α) : Prop where
  reads : read j = some a
  numbers : j.NumbersReadBack

variable {write : α → Json} {read : Json → Option β} {g : α → β}

theorem stores_list {l : List α} (h : ∀ a ∈ l, Stores read (write a) (g a)) :
    Stores (list? read) (ofList write l) (l.map g) where
  reads := by
    show (l.map write).mapM read = some (l.map g)
    induction l with
    | nil => rfl
    | cons a l ih =>
      have hl := ih fun b hb => h b (List.mem_cons_of_mem a hb)
      rw [List.map_cons, List.mapM_cons, (h a List.mem_cons_self).reads, hl]
      rfl
  numbers := NumbersReadBack.ofList_iff.mpr fun a ha => (h a ha).numbers

theorem stores_list_self {write : α → Json} {read : Json → Option α} {l : List α}
    (h : ∀ a ∈ l, Stores read (write a) a) : Stores (list? read) (ofList write l) l := by
  have hl := stores_list h
  rwa [List.map_id'] at hl

/-- Reads what may be null. -/
def nullable? (read : Json → Option α) : Json → Option (Option α)
  | .null => some none
  | value => (read value).map some

theorem optional?_eq (j : Json) (key : String) (read : Json → Option α) :
    optional? j key read = (j.member? key).bind fun
      | none => some none
      | some value => nullable? read value := by
  unfold optional?
  cases j.member? key with
  | none => rfl
  | some value? =>
    cases value? with
    | none => rfl
    | some value => cases value <;> rfl

theorem nullable?_eq {j : Json} (h : j ≠ .null) (read : Json → Option α) :
    nullable? read j = (read j).map some := by
  cases j with
  | null => exact absurd rfl h
  | _ => rfl

theorem stores_option {o : Option α} (hnull : ∀ a, write a ≠ .null) (h : ∀ a ∈ o, Stores read (write a) (g a)) :
    Stores (nullable? read) (ofOption write o) (o.map g) where
  reads := by
    cases o with
    | none => rfl
    | some a => exact (nullable?_eq (hnull a) read).trans (congrArg (Option.map some) (h a rfl).reads)
  numbers := NumbersReadBack.ofOption_iff.mpr fun a ha => (h a ha).numbers

theorem stores_option_self {write : α → Json} {read : Json → Option α} {o : Option α}
    (hnull : ∀ a, write a ≠ .null) (h : ∀ a ∈ o, Stores read (write a) a) :
    Stores (nullable? read) (ofOption write o) o := by
  have ho := stores_option hnull h
  rwa [Option.map_id'] at ho

theorem stores_string (s : String) : Stores asString? (.string s) s := ⟨rfl, .string s⟩

theorem stores_string_option (o : Option String) : Stores (nullable? asString?) (ofOption .string o) o :=
  stores_option_self string_ne_null fun s _ => stores_string s

end TreeScribe.Json
