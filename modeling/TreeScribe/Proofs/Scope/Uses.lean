import TreeScribe.Proofs.Scope.Keys

/-! Which variables of a scope are used.

An access is found by the nearest scope around it that declares the key (`Finds`). In a scope whose
variables are declared nowhere else, such as parameters, every access that the scope finds is counted
(`isUsed_access`), and no other operation counts. -/
namespace TreeScribe

/-- A variable that is declared nowhere else is counted. -/
theorem Access.applied_undeclared (how : Access) (start : Nat) (escapes : Bool)
    (isOutside : Nat → Bool) {v : VariableInfo} (h : v.declaration = .undeclared) :
    how.applied start escapes isOutside v = { v with seen := true, uses := v.uses + 1 } := by
  have hfresh : v.isFresh = false := by simp [VariableInfo.isFresh, h]
  have hcarried : v.isCarried = false := by simp [VariableInfo.isCarried, h]
  rw [Access.applied_eq, hfresh, Bool.and_false, Bool.false_and, if_neg Bool.false_ne_true,
    VariableInfo.used_of_not_carried hcarried]

namespace ScopeTree

/-! ### Where a key is found -/

/-- Seen from a scope, the key belongs to a variable of this other scope. -/
def Finds (t : ScopeTree) (start : Nat) (key : VariableKey) (i : Nat) : Prop :=
  ∃ slot, t.find? start key = some slot ∧ slot.scope = i

section Finds

variable {t : ScopeTree} (ht : t.ParentsBelow) {start : Nat} {key : VariableKey} {i : Nat}

include ht

/-- A scope finds what it declares itself, and else what the scope around it finds. -/
theorem finds_iff : t.Finds start key i ↔ (t.Declares start key ∧ i = start) ∨
    (¬t.Declares start key ∧ ∃ p, t.parent? start = some p ∧ t.Finds p key i) := by
  have hdeclares := t.slotIn?_isSome_iff start key
  unfold Finds find?
  cases hslot : t.slotIn? start key with
  | some slot =>
    rw [hslot] at hdeclares
    have hkey : t.Declares start key := hdeclares.mp rfl
    have hscope : slot.scope = start := by
      obtain ⟨_, _, _, _, rfl⟩ := slotIn?_eq_some hslot
      rfl
    have hpath : (t.path start).findSome? (t.slotIn? · key) = some slot := by
      cases hp : t.parent? start with
      | none => rw [path_of_root hp, List.findSome?_cons, hslot]
      | some p => rw [path_of_parent ht hp, List.findSome?_cons, hslot]
    rw [hpath]
    constructor
    · rintro ⟨_, ⟨⟩, rfl⟩
      exact .inl ⟨hkey, hscope⟩
    · rintro (⟨-, rfl⟩ | ⟨hnot, -⟩)
      · exact ⟨slot, rfl, hscope⟩
      · exact absurd hkey hnot
  | none =>
    rw [hslot] at hdeclares
    have hkey : ¬t.Declares start key := fun h => nomatch hdeclares.mpr h
    cases hp : t.parent? start with
    | none =>
      rw [path_of_root hp, List.findSome?_singleton, hslot]
      constructor
      · rintro ⟨_, ⟨⟩, _⟩
      · rintro (⟨h, -⟩ | ⟨-, p, ⟨⟩, -⟩)
        exact absurd h hkey
    | some p =>
      rw [path_of_parent ht hp, List.findSome?_cons, hslot]
      constructor
      · intro h
        exact .inr ⟨hkey, p, rfl, h⟩
      · rintro (⟨h, -⟩ | ⟨-, _, ⟨⟩, h⟩)
        · exact absurd h hkey
        · exact h

theorem Finds.inside (h : t.Finds start key i) : t.Inside start i := by
  obtain ⟨slot, hslot, rfl⟩ := h
  obtain ⟨j, hj, hslot⟩ := List.exists_of_findSome?_eq_some hslot
  obtain ⟨_, _, _, _, rfl⟩ := slotIn?_eq_some hslot
  exact (mem_path_iff ht start j).mp hj

/-- What a scope finds below the root stays so while the tree grows. -/
theorem finds_of_growth {t' : ScopeTree} (ht' : t'.ParentsBelow) (hlinks : t.links <+: t'.links)
    (hkeys : ∀ j, j ≠ rootScope → j < t.scopes.length → t'.keys? j = t.keys? j)
    (hstart : start < t.scopes.length) (hi : i ≠ rootScope) :
    t'.Finds start key i ↔ t.Finds start key i := by
  induction start using Nat.strongRecOn with
  | ind start ih =>
    by_cases hroot : start = rootScope
    · -- the root finds nothing below itself
      have hnot {t : ScopeTree} (ht : t.ParentsBelow) : ¬t.Finds start key i := by
        intro h
        have hle : i ≤ rootScope := hroot ▸ (h.inside ht).le ht
        exact hi (Nat.le_zero.mp hle)
      exact ⟨fun h => absurd h (hnot ht'), fun h => absurd h (hnot ht)⟩
    · have hdeclares : t'.Declares start key ↔ t.Declares start key := by
        unfold Declares
        rw [hkeys start hroot hstart]
      rw [finds_iff ht', finds_iff ht, hdeclares, parent?_of_growth hlinks hstart]
      refine or_congr_right (and_congr_right fun _ => exists_congr fun p => ?_)
      refine and_congr_right fun hp => ?_
      have hlt := ht start p hp
      exact ih p hlt (Nat.lt_trans hlt hstart)

end Finds

/-! ### Used variables -/

/-- Some variable of the scope has the key and is used. -/
def IsUsed (t : ScopeTree) (i : Nat) (key : VariableKey) : Prop :=
  ∃ j v, t.info? ⟨i, j⟩ = some v ∧ v.key = key ∧ v.isUsed = true

/-- The variables of the scope are not declared at any later place. -/
def IsSettled (t : ScopeTree) (i : Nat) : Prop :=
  ∀ j v, t.info? ⟨i, j⟩ = some v → v.declaration = .undeclared

theorem isUsed_congr {t t' : ScopeTree} {i : Nat} (h : ∀ j, t'.info? ⟨i, j⟩ = t.info? ⟨i, j⟩)
    (key : VariableKey) : t'.IsUsed i key ↔ t.IsUsed i key := by
  unfold IsUsed
  simp only [h]

theorem isSettled_congr {t t' : ScopeTree} {i : Nat} (h : ∀ j, t'.info? ⟨i, j⟩ = t.info? ⟨i, j⟩) :
    t'.IsSettled i ↔ t.IsSettled i := by
  unfold IsSettled
  simp only [h]

/-- An access changes the one variable that it finds, if that is not in the root. -/
theorem info?_access_of_ne_root {t : ScopeTree} (ht : t.Rooted) {start : Nat}
    (hstart : start < t.scopes.length) (key : VariableKey) (how : Access) {i : Nat}
    (hi : i ≠ rootScope) (j : Nat) : ∃ escapes isOutside,
      (t.access start key how).2.info? ⟨i, j⟩ =
        if t.find? start key = some ⟨i, j⟩ then
          (t.info? ⟨i, j⟩).map (how.applied start escapes isOutside)
        else t.info? ⟨i, j⟩ := by
  rw [Recorded.info?_access t start key how hstart]
  unfold resolve
  cases hfind : t.find? start key with
  | some slot =>
    simp only [Option.some.injEq]
    exact ⟨_, _, rfl⟩
  | none =>
    refine ⟨false, fun _ => false, ?_⟩
    have hscope := t.scope_declare rootScope key .undeclared
    have hne : (t.declare rootScope key .undeclared).1 ≠ ⟨i, j⟩ := by
      intro h
      rw [h] at hscope
      exact hi hscope
    dsimp only
    rw [if_neg hne, if_neg nofun]
    rcases declare_cases t (i := rootScope) ht.nonempty key .undeclared with
      ⟨_, -, -, heq⟩ | ⟨-, heq⟩
    · rw [heq]
    · rw [heq, if_neg (Ne.symm hne)]

section Operations

variable {t : ScopeTree} (ht : t.Rooted) {start : Nat} (hstart : start < t.scopes.length) {i : Nat}

include ht hstart

theorem isSettled_access (hi : i ≠ rootScope) (h : t.IsSettled i) (key : VariableKey) (how : Access) :
    (t.access start key how).2.IsSettled i := by
  intro j v hv
  obtain ⟨escapes, isOutside, hinfo⟩ := info?_access_of_ne_root ht hstart key how hi j
  rw [hinfo] at hv
  split at hv
  · obtain ⟨w, hw, rfl⟩ := Option.map_eq_some_iff.mp hv
    rw [Access.applied_undeclared _ _ _ _ (h j w hw)]
    exact h j w hw
  · exact h j v hv

/-- **An access counts for the scope that finds it.** -/
theorem isUsed_access (hi : i ≠ rootScope) (h : t.IsSettled i) (key : VariableKey) (how : Access)
    (k : VariableKey) : (t.access start key how).2.IsUsed i k ↔
      t.IsUsed i k ∨ k ∈ [key] ∧ t.Finds start k i := by
  constructor
  · rintro ⟨j, v, hv, rfl, hused⟩
    obtain ⟨escapes, isOutside, hinfo⟩ := info?_access_of_ne_root ht hstart key how hi j
    rw [hinfo] at hv
    split at hv
    next hfind =>
      obtain ⟨w, hw, rfl⟩ := Option.map_eq_some_iff.mp hv
      have hkey : w.key = key := by
        obtain ⟨_, -, hslot⟩ := List.exists_of_findSome?_eq_some hfind
        obtain ⟨w', hw', hkey⟩ := info?_of_slotIn? hslot
        cases hw.symm.trans hw'
        exact hkey
      rw [Access.key_applied, hkey]
      exact .inr ⟨List.mem_singleton_self _, ⟨i, j⟩, hfind, rfl⟩
    · exact .inl ⟨j, v, hv, rfl, hused⟩
  · rintro (⟨j, v, hv, rfl, hused⟩ | ⟨hk, ⟨i', j⟩, hfind, rfl⟩)
    · obtain ⟨escapes, isOutside, hinfo⟩ := info?_access_of_ne_root ht hstart key how hi j
      rw [hv] at hinfo
      split at hinfo
      · rw [Option.map_some, Access.applied_undeclared _ _ _ _ (h j v hv)] at hinfo
        exact ⟨j, _, hinfo, rfl, decide_eq_true (Nat.succ_pos _)⟩
      · exact ⟨j, v, hinfo, rfl, hused⟩
    · cases List.mem_singleton.mp hk
      obtain ⟨_, -, hslot⟩ := List.exists_of_findSome?_eq_some hfind
      obtain ⟨v, hv, hkey⟩ := info?_of_slotIn? hslot
      obtain ⟨escapes, isOutside, hinfo⟩ := info?_access_of_ne_root ht hstart _ how hi j
      rw [if_pos hfind, hv, Option.map_some, Access.applied_undeclared _ _ _ _ (h j v hv)] at hinfo
      exact ⟨j, _, hinfo, hkey, decide_eq_true (Nat.succ_pos _)⟩

end Operations

end ScopeTree
end TreeScribe
