import TreeScribe.Proofs.Scope.Escapes

/-! The keys that scopes declare.

`keys?` gives the keys of the variables of a scope. They are all different (`UniqueKeys`), and they
alone decide where an access finds its variable: it crosses into a scope exactly if no scope on the
way there declares the key (`crosses_resolve_iff`). -/
namespace TreeScribe

namespace ScopeTree

def keys? (t : ScopeTree) (i : Nat) : Option (List VariableKey) :=
  (t.scope? i).map fun s => s.locals.map (·.key)

def Declares (t : ScopeTree) (i : Nat) (key : VariableKey) : Prop :=
  ∃ keys, t.keys? i = some keys ∧ key ∈ keys

/-! ### Operations -/

theorem keys?_modifyScope (t : ScopeTree) (i : Nat) (f : Scope → Scope)
    (h : ∀ s, (f s).locals.map (·.key) = s.locals.map (·.key)) (j : Nat) :
    (t.modifyScope i f).keys? j = t.keys? j :=
  map_scope?_modifyScope t i h j

theorem keys?_modifyVariable (t : ScopeTree) (slot : Slot) {f : VariableInfo → VariableInfo}
    (h : ∀ v, (f v).key = v.key) (j : Nat) : (t.modifyVariable slot f).keys? j = t.keys? j := by
  refine keys?_modifyScope t slot.scope
    (fun s => { s with locals := s.locals.modify slot.index f }) (fun s => ?_) j
  apply List.ext_getElem?
  intro k
  simp only [List.getElem?_map, List.getElem?_modify]
  cases s.locals[k]? with
  | none => rfl
  | some v => split <;> simp [h]

theorem keys?_noteEscapes (t : ScopeTree) (key : VariableKey) (isAssigned : Bool) (is : List Nat)
    (j : Nat) : (t.noteEscapes key isAssigned is).keys? j = t.keys? j := by
  induction is generalizing t with
  | nil => rfl
  | cons i is ih =>
    rw [noteEscapes, ih]
    exact keys?_modifyScope t i _ (fun s => by rw [locals_noteEscape]) j

theorem keys?_push (t : ScopeTree) (parent : Nat) (kind : ScopeKind) (j : Nat) :
    (t.push parent kind).2.keys? j = if j = t.scopes.length then some [] else t.keys? j := by
  rw [← keys?_modifyScope t parent
    (fun s => { s with children := s.children ++ [t.scopes.length] }) (fun _ => rfl) j]
  unfold keys?
  rw [scope?_push]
  split <;> rfl

theorem slotIn?_isSome_iff (t : ScopeTree) (i : Nat) (key : VariableKey) :
    (t.slotIn? i key).isSome ↔ t.Declares i key := by
  constructor
  · intro h
    obtain ⟨slot, hslot⟩ := Option.isSome_iff_exists.mp h
    obtain ⟨s, index, hs, hindex, -⟩ := slotIn?_eq_some hslot
    obtain ⟨hlt, hkey, -⟩ := List.findIdx?_eq_some_iff_getElem.mp hindex
    exact ⟨_, by rw [keys?, hs]; rfl,
      List.mem_map.mpr ⟨_, List.getElem_mem hlt, by simpa using hkey⟩⟩
  · rintro ⟨keys, hkeys, hmem⟩
    obtain ⟨s, hs, rfl⟩ := Option.map_eq_some_iff.mp hkeys
    obtain ⟨v, hv, hkey⟩ := List.mem_map.mp hmem
    cases hindex : s.indexOf? key with
    | none =>
      have hnone := List.findIdx?_eq_none_iff.mp hindex v hv
      simp [hkey] at hnone
    | some index => simp [slotIn?, hs, hindex]

/-- A scope that declares the key already is left as it is. -/
theorem keys?_declare (t : ScopeTree) (i : Nat) (key : VariableKey) (d : Declaration) (j : Nat) :
    (t.declare i key d).2.keys? j =
      if j = i then (t.keys? i).map fun keys => if key ∈ keys then keys else keys ++ [key]
      else t.keys? j := by
  have hdeclares := t.slotIn?_isSome_iff i key
  unfold declare
  cases hslot : t.slotIn? i key with
  | some slot =>
    rw [hslot] at hdeclares
    obtain ⟨keys, hkeys, hmem⟩ := hdeclares.mp rfl
    by_cases h : j = i
    · simp [h, hkeys, hmem]
    · simp [h]
  | none =>
    rw [hslot] at hdeclares
    show ((t.modifyScope i _).scope? j).map _ = _
    rw [scope?_modifyScope]
    by_cases h : j = i
    · subst h
      rw [if_pos rfl, if_pos rfl, keys?]
      cases hs : t.scope? j with
      | none => rfl
      | some s =>
        have hnew : key ∉ s.locals.map (·.key) := fun hmem =>
          nomatch hdeclares.mpr ⟨_, by rw [keys?, hs]; rfl, hmem⟩
        simp only [Option.map_some, hnew, if_false, List.map_append, List.map_singleton]
    · rw [if_neg (Ne.symm h), if_neg h]
      rfl

theorem keys?_access (t : ScopeTree) (start : Nat) (key : VariableKey) (how : Access) (j : Nat) :
    (t.access start key how).2.keys? j = (t.resolve start key).2.keys? j := by
  rw [access_eq]
  dsimp only
  rw [keys?_modifyVariable _ _ (fun v => Access.key_applied ..), keys?_noteEscapes]

/-- No scope has two variables of one key. -/
def UniqueKeys (t : ScopeTree) : Prop := ∀ i keys, t.keys? i = some keys → keys.Nodup

namespace UniqueKeys

variable {t : ScopeTree}

theorem push (h : t.UniqueKeys) (parent : Nat) (kind : ScopeKind) :
    (t.push parent kind).2.UniqueKeys := by
  intro i keys hkeys
  rw [keys?_push] at hkeys
  split at hkeys
  · cases hkeys
    exact List.nodup_nil
  · exact h i keys hkeys

theorem declare (h : t.UniqueKeys) (i : Nat) (key : VariableKey) (d : Declaration) :
    (t.declare i key d).2.UniqueKeys := by
  intro j keys hkeys
  rw [keys?_declare] at hkeys
  split at hkeys
  · obtain ⟨old, hold, rfl⟩ := Option.map_eq_some_iff.mp hkeys
    split
    · exact h i old hold
    next hnew =>
      rw [← List.concat_eq_append]
      exact (h i old hold).concat hnew
  · exact h j keys hkeys

theorem access (h : t.UniqueKeys) (start : Nat) (key : VariableKey) (how : Access) :
    (t.access start key how).2.UniqueKeys := by
  intro j keys hkeys
  rw [keys?_access] at hkeys
  unfold resolve at hkeys
  split at hkeys
  · exact h j keys hkeys
  · exact h.declare rootScope key .undeclared j keys hkeys

/-- Two variables of one key in one scope are the same. -/
theorem index_eq (h : t.UniqueKeys) {i j j' : Nat} {v v' : VariableInfo}
    (hv : t.info? ⟨i, j⟩ = some v) (hv' : t.info? ⟨i, j'⟩ = some v') (hkey : v.key = v'.key) :
    j = j' := by
  obtain ⟨s, hs, hj⟩ := Option.bind_eq_some_iff.mp hv
  obtain ⟨s', hs', hj'⟩ := Option.bind_eq_some_iff.mp hv'
  cases hs.symm.trans hs'
  have hnodup : (s.locals.map (·.key)).Nodup := h i _ (by rw [keys?, hs]; rfl)
  have hkeys : (s.locals.map (·.key))[j]? = (s.locals.map (·.key))[j']? := by
    rw [List.getElem?_map, List.getElem?_map]
    change s.locals[j]? = some v at hj
    change s.locals[j']? = some v' at hj'
    rw [hj, hj', Option.map_some, Option.map_some, hkey]
  have hlt : j < (s.locals.map (·.key)).length := by
    rw [List.length_map]
    exact (List.getElem?_eq_some_iff.mp hj).1
  exact (List.getElem?_inj hlt hnodup).mp hkeys

end UniqueKeys

/-! ### Slots -/

/-- The slot holds a variable with the key. -/
def Holds (t : ScopeTree) (slot : Slot) (key : VariableKey) : Prop :=
  ∃ v, t.info? slot = some v ∧ v.key = key

section Holds

variable {t t' : ScopeTree} {slot slot' : Slot} {key key' : VariableKey} {d : Declaration}

theorem Makes.holds (h : t.Makes t' slot key d) : t'.Holds slot key := by
  rcases h with ⟨v, hv, hkey, rfl⟩ | ⟨-, hinfo⟩
  · exact ⟨v, hv, hkey⟩
  · exact ⟨_, (hinfo slot).trans (if_pos rfl), rfl⟩

theorem Holds.push (h : t.Holds slot key) (parent : Nat) (kind : ScopeKind) :
    (t.push parent kind).2.Holds slot key := by
  obtain ⟨v, hv, hkey⟩ := h
  exact ⟨v, (info?_push t parent kind slot).trans hv, hkey⟩

theorem Holds.made (h : t.Holds slot key) (hmakes : t.Makes t' slot' key' d) : t'.Holds slot key := by
  rcases hmakes with ⟨-, -, -, rfl⟩ | ⟨hnone, hinfo⟩
  · exact h
  · obtain ⟨v, hv, hkey⟩ := h
    have hne : slot ≠ slot' := by
      rintro rfl
      cases hnone.symm.trans hv
    exact ⟨v, by rw [hinfo, if_neg hne, hv], hkey⟩

/-- An access changes no keys beyond those of the resolution. -/
theorem Holds.accessed {start : Nat} (hstart : start < t.scopes.length) (how : Access)
    (h : (t.resolve start key').2.Holds slot key) : (t.access start key' how).2.Holds slot key := by
  obtain ⟨v, hv, hkey⟩ := h
  unfold Holds
  rw [Recorded.info?_access t start key' how hstart slot]
  dsimp only
  split
  · rw [hv]
    exact ⟨_, rfl, (Access.key_applied ..).trans hkey⟩
  · exact ⟨v, hv, hkey⟩

/-- The slot of an access holds the variable that is accessed. -/
theorem holds_access {start : Nat} (hstart : start < t.scopes.length) (key : VariableKey) (how : Access) :
    (t.access start key how).2.Holds (t.access start key how).1 key := by
  have hmakes := resolve_cases t (Nat.zero_lt_of_lt hstart) start key
  exact hmakes.holds.accessed hstart how

/-- **A slot keeps the key of its variable.** -/
theorem Holds.access (h : t.Holds slot key) {start : Nat} (hstart : start < t.scopes.length)
    (key' : VariableKey) (how : Access) : (t.access start key' how).2.Holds slot key :=
  (h.made (resolve_cases t (Nat.zero_lt_of_lt hstart) start key')).accessed hstart how

end Holds

/-! ### Where an access finds its variable -/

/-- The way up from a scope to another, both included, declares the key nowhere. -/
def Clear (t : ScopeTree) (key : VariableKey) (start i : Nat) : Prop :=
  t.Inside start i ∧ ∀ j, t.Inside start j → t.Inside j i → ¬t.Declares j key

theorem Inside.total {t : ScopeTree} {s i j : Nat} (hi : t.Inside s i) (hj : t.Inside s j) :
    t.Inside i j ∨ t.Inside j i := by
  induction hi with
  | refl s => exact .inl hj
  | @up s p i hp hi ih =>
    cases hj with
    | refl => exact .inr (.up hp hi)
    | up hp' hj =>
      cases hp.symm.trans hp'
      exact ih hj

theorem Inside.antisymm {t : ScopeTree} (ht : t.ParentsBelow) {i j : Nat} (h : t.Inside i j)
    (h' : t.Inside j i) : i = j :=
  Nat.le_antisymm (h'.le ht) (h.le ht)

/-- The variable is found in the nearest scope that declares it. -/
theorem nearest_of_find? {t : ScopeTree} (ht : t.ParentsBelow) {start : Nat} {key : VariableKey}
    {slot : Slot} (h : t.find? start key = some slot) :
    t.Declares slot.scope key ∧
      ∀ j, t.Inside start j → t.Declares j key → t.Inside slot.scope j := by
  have hself {i : Nat} {slot : Slot} (hi : t.slotIn? i key = some slot) :
      slot.scope = i ∧ t.Declares i key := by
    obtain ⟨_, _, _, _, rfl⟩ := slotIn?_eq_some hi
    exact ⟨rfl, (t.slotIn?_isSome_iff i key).mp (by rw [hi]; rfl)⟩
  induction start using Nat.strongRecOn with
  | ind start ih =>
    unfold find? at h
    cases hp : t.parent? start with
    | none =>
      rw [path_of_root hp, List.findSome?_singleton] at h
      obtain ⟨rfl, hdeclares⟩ := hself h
      exact ⟨hdeclares, fun j hj _ => hj⟩
    | some p =>
      rw [path_of_parent ht hp, List.findSome?_cons] at h
      split at h
      next found hfound =>
        cases h
        obtain ⟨rfl, hdeclares⟩ := hself hfound
        exact ⟨hdeclares, fun j hj _ => hj⟩
      next hnone =>
        obtain ⟨hdeclares, hnearest⟩ := ih p (ht start p hp) h
        refine ⟨hdeclares, fun j hj hkey => ?_⟩
        cases hj with
        | refl =>
          have := (t.slotIn?_isSome_iff start key).mpr hkey
          rw [hnone] at this
          cases this
        | up hp' hj =>
          cases hp.symm.trans hp'
          exact hnearest j hj hkey

theorem not_declares_of_find? {t : ScopeTree} (ht : t.ParentsBelow) {start : Nat}
    {key : VariableKey} (h : t.find? start key = none) {j : Nat} (hj : t.Inside start j) :
    ¬t.Declares j key := by
  intro hkey
  have hnone := List.findSome?_eq_none_iff.mp h j ((mem_path_iff ht start j).mpr hj)
  have := (t.slotIn?_isSome_iff j key).mpr hkey
  rw [hnone] at this
  cases this

/-- **An access crosses into a scope exactly if no scope on the way declares the key.** -/
theorem crosses_resolve_iff {t : ScopeTree} (ht : t.Rooted) {start : Nat} (key : VariableKey)
    {i : Nat} (hi : i ≠ rootScope) (hlt : start < t.scopes.length) :
    (t.Inside start i ∧ t.Inside i (t.resolve start key).1.scope ∧
      (t.resolve start key).1.scope ≠ i) ↔ t.Clear key start i := by
  have hbelow := ht.parentsBelow
  have haround := inside_resolve ht hlt key
  unfold resolve at haround ⊢
  cases hfind : t.find? start key with
  | some slot =>
    rw [hfind] at haround
    dsimp only at haround ⊢
    obtain ⟨hdeclares, hnearest⟩ := nearest_of_find? hbelow hfind
    constructor
    · rintro ⟨hi, hslot, hne⟩
      refine ⟨hi, fun j hj hji hkey => hne ?_⟩
      -- the scope in between would be the nearest one
      exact (hnearest j hj hkey).trans hji |>.antisymm hbelow hslot
    · rintro ⟨hi, hclear⟩
      rcases hi.total haround with hslot | hslot
      · exact ⟨hi, hslot, fun h => hclear i hi (.refl i) (h ▸ hdeclares)⟩
      · exact absurd hdeclares (hclear slot.scope haround hslot)
  | none =>
    dsimp only
    rw [scope_declare]
    constructor
    · rintro ⟨hi, -, -⟩
      exact ⟨hi, fun j hj _ => not_declares_of_find? hbelow hfind hj⟩
    · rintro ⟨hinside, -⟩
      have hilt : i < t.scopes.length := Nat.lt_of_le_of_lt (hinside.le hbelow) hlt
      exact ⟨hinside, ht.inside_root hilt, Ne.symm hi⟩

end ScopeTree
end TreeScribe
