import Mathlib.Data.List.Forall2

/-! Computations that end with a result or with an error.

A computation of several steps ends with the first error, and has a result only if each step has one. -/
namespace TreeScribe

/-! ### Results -/

theorem exists_of_isOk {ε α : Type} {x : Except ε α} (h : x.isOk = true) : ∃ a, x = .ok a := by
  cases x with
  | error e => cases h
  | ok a => exact ⟨a, rfl⟩

theorem exists_of_bind_ok {ε α β : Type} {x : Except ε α} {f : α → Except ε β} {b : β}
    (h : x >>= f = .ok b) : ∃ a, x = .ok a ∧ f a = .ok b := by
  cases x with
  | error e => cases h
  | ok a => exact ⟨a, rfl, h⟩

theorem forall₂_of_mapM_ok {ε α β : Type} {f : α → Except ε β} {as : List α} {bs : List β}
    (h : as.mapM f = .ok bs) : List.Forall₂ (fun a b => f a = .ok b) as bs := by
  induction as generalizing bs with
  | nil =>
    cases h
    exact .nil
  | cons a as ih =>
    rw [List.mapM_cons] at h
    obtain ⟨b, hb, h⟩ := exists_of_bind_ok h
    obtain ⟨bs', hbs, h⟩ := exists_of_bind_ok h
    cases h
    exact .cons hb (ih hbs)

theorem exists_of_mapM_ok {ε α β : Type} {f : α → Except ε β} {as : List α} {bs : List β}
    (h : as.mapM f = .ok bs) {b : β} (hb : b ∈ bs) : ∃ a ∈ as, f a = .ok b := by
  have hall := forall₂_of_mapM_ok h
  clear h
  induction hall with
  | nil => cases hb
  | cons ha _ ih =>
    rcases List.mem_cons.mp hb with rfl | hb
    · exact ⟨_, List.mem_cons_self .., ha⟩
    · obtain ⟨a, hmem, ha⟩ := ih hb
      exact ⟨a, List.mem_cons_of_mem _ hmem, ha⟩

theorem forall_of_forM_ok {ε α : Type} {f : α → Except ε Unit} {as : List α} (h : as.forM f = .ok ()) :
    ∀ a ∈ as, f a = .ok () := by
  induction as with
  | nil => exact List.forall_mem_nil _
  | cons a as ih =>
    obtain ⟨_, ha, has⟩ := exists_of_bind_ok (x := f a) (f := fun _ => as.forM f) h
    exact List.forall_mem_cons.mpr ⟨ha, ih has⟩

theorem map_getElem?_of_mapM_ok {ε α β : Type} {f : α → Except ε β} {as : List α} {bs : List β}
    (h : as.mapM f = .ok bs) (i : Nat) : as[i]?.map f = bs[i]?.map .ok := by
  have hall := forall₂_of_mapM_ok h
  clear h
  induction hall generalizing i with
  | nil => rfl
  | cons hhead _ ih =>
    cases i with
    | zero => exact congrArg some hhead
    | succ i => exact ih i

/-! ### Errors -/

theorem error_of_bind {ε α β : Type} {x : Except ε α} {f : α → Except ε β} {e : ε}
    (h : x >>= f = .error e) : x = .error e ∨ ∃ a, x = .ok a ∧ f a = .error e := by
  cases x with
  | error e' =>
    cases h
    exact .inl rfl
  | ok a => exact .inr ⟨a, rfl, h⟩

/-- The first error decides. -/
theorem mapM_eq_error_iff {ε α β : Type} {f : α → Except ε β} {as : List α} {e : ε} :
    as.mapM f = .error e ↔
      ∃ before a after, as = before ++ a :: after ∧ (∀ b ∈ before, ∃ x, f b = .ok x) ∧
        f a = .error e := by
  induction as with
  | nil =>
    constructor
    · intro h
      cases h
    · rintro ⟨before, a, after, hnil, -⟩
      cases before <;> cases hnil
  | cons a as ih =>
    rw [List.mapM_cons]
    constructor
    · intro h
      rcases error_of_bind h with ha | ⟨x, hx, h⟩
      · exact ⟨[], a, as, rfl, List.forall_mem_nil _, ha⟩
      · rcases error_of_bind h with has | ⟨bs, -, h⟩
        · obtain ⟨before, a', after, rfl, hbefore, ha'⟩ := ih.mp has
          exact ⟨a :: before, a', after, rfl, List.forall_mem_cons.mpr ⟨⟨x, hx⟩, hbefore⟩, ha'⟩
        · cases h
    · rintro ⟨before, a', after, has, hbefore, ha'⟩
      cases before with
      | nil =>
        obtain ⟨rfl, rfl⟩ := List.cons.inj has
        rw [ha']
        rfl
      | cons b before =>
        obtain ⟨rfl, rest⟩ := List.cons.inj has
        obtain ⟨⟨x, hx⟩, hbefore⟩ := List.forall_mem_cons.mp hbefore
        rw [hx, ih.mpr ⟨before, a', after, rest, hbefore, ha'⟩]
        rfl

theorem exists_of_mapM_error {ε α β : Type} {f : α → Except ε β} {as : List α} {e : ε}
    (h : as.mapM f = .error e) : ∃ a ∈ as, f a = .error e := by
  obtain ⟨before, a, after, rfl, -, ha⟩ := mapM_eq_error_iff.mp h
  exact ⟨a, List.mem_append_right _ (List.mem_cons_self ..), ha⟩

theorem exists_of_forM_error {ε α : Type} {f : α → Except ε Unit} {as : List α} {e : ε}
    (h : as.forM f = .error e) : ∃ a ∈ as, f a = .error e := by
  induction as with
  | nil => cases h
  | cons a as ih =>
    rcases error_of_bind (x := f a) (f := fun _ => as.forM f) h with ha | ⟨-, -, has⟩
    · exact ⟨a, List.mem_cons_self .., ha⟩
    · obtain ⟨a', ha', herror⟩ := ih has
      exact ⟨a', List.mem_cons_of_mem _ ha', herror⟩

theorem mapError_eq_error_iff {ε ε' α : Type} {x : Except ε α} {f : ε → ε'} {e : ε'} :
    x.mapError f = .error e ↔ ∃ a, x = .error a ∧ f a = e := by
  cases x <;> simp [Except.mapError]

theorem mapError_eq_ok_iff {ε ε' α : Type} {x : Except ε α} {f : ε → ε'} {a : α} :
    x.mapError f = .ok a ↔ x = .ok a := by
  cases x <;> simp [Except.mapError]

end TreeScribe
