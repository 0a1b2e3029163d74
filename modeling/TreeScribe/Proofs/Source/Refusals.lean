import TreeScribe.Proofs.Source.Names

/-! Why no file is made of a plan.

What is said of a plan that is refused may name types: those of a method that several methods of interfaces
match. Without interfaces it names none (`SourcePlan.namesNoTypes`), and so the process does not stop at the name
of a type before the refusal is said (`Source.file?_eq_error_iff`). -/
namespace TreeScribe

/-! ### Messages without types -/

/-- The message names no types, so that the process does not stop at it. -/
def SourceError.NamesNoTypes (e : SourceError) : Prop := e.overflows = false

section NamesNoTypes

variable {e : SourceError}

theorem namesNoTypes_of_validateName {kind : NameKind} {name : String} (h : validateName kind name = .error e) :
    e.NamesNoTypes := by
  unfold validateName at h
  split at h <;> cases h
  rfl

theorem namesNoTypes_of_ensureUnique {kind : NameKind} {names : List String}
    (h : ensureUnique kind names = .error e) : e.NamesNoTypes := by
  obtain ⟨name, rfl, -⟩ := ensureUnique_error h
  rfl

theorem ParsedMethod.namesNoTypes {m : MethodPlan} (h : ofPlan m = .error e) : e.NamesNoTypes := by
  have hannotated {es : List Expr} (h : ofAnnotated es = .error e) : e.NamesNoTypes := by
    unfold ofAnnotated at h
    repeat' split at h
    all_goals cases h
    all_goals rfl
  rcases error_of_bind h with h | ⟨parsed, -, h⟩
  · unfold ofExpr at h
    dsimp only at h
    split at h
    · cases h
    · split at h
      · exact hannotated h
      · split at h <;> cases h
        rfl
    · cases h
  · cases h

theorem ClassPlan.namesNoTypes_of_validate {c : ClassPlan} (h : c.validate = .error e) : e.NamesNoTypes := by
  rcases error_of_bind h with h | ⟨_, -, h⟩
  · cases hname : c.name with
    | none =>
      rw [hname] at h
      cases h
    | some n =>
      rw [hname] at h
      exact namesNoTypes_of_validateName h
  · rcases error_of_bind h with h | ⟨_, -, h⟩
    · obtain ⟨n, -, h⟩ := exists_of_forM_error h
      exact namesNoTypes_of_validateName h
    · exact namesNoTypes_of_ensureUnique h

theorem ClassPlan.namesNoTypes_of_build {c : ClassPlan} (hinterfaces : c.interfaces = []) {settings : Settings}
    {name : String} (h : c.build settings name = .error e) : e.NamesNoTypes := by
  unfold build at h
  rcases error_of_bind h with h | ⟨parsed, -, h⟩
  · obtain ⟨m, -, h⟩ := exists_of_mapM_error h
    exact ParsedMethod.namesNoTypes h
  rcases error_of_bind h with h | ⟨slots, -, h⟩
  · cases (mapM_slot hinterfaces parsed).symm.trans h
  rcases error_of_bind h with h | ⟨_, -, h⟩
  · exact namesNoTypes_of_ensureUnique h
  · cases h

/-- Only a method that matches several methods of interfaces is refused with a message that names types. -/
theorem SourcePlan.namesNoTypes {p : SourcePlan} (hinterfaces : ∀ c ∈ p.classes, c.interfaces = [])
    {settings : Settings} (h : p.build settings = .error e) : e.NamesNoTypes := by
  rcases error_of_bind h with h | ⟨_, -, h⟩
  · rcases error_of_bind h with h | ⟨_, -, h⟩
    · exact namesNoTypes_of_validateName h
    rcases error_of_bind h with h | ⟨_, -, h⟩
    · obtain ⟨c, -, h⟩ := exists_of_forM_error h
      exact ClassPlan.namesNoTypes_of_validate h
    · exact namesNoTypes_of_ensureUnique h
  rcases error_of_bind h with h | ⟨names, -, h⟩
  · unfold classNames at h
    split at h
    · cases h
      rfl
    rcases error_of_bind h with h | ⟨_, -, h⟩
    · exact namesNoTypes_of_ensureUnique h
    · split at h <;> cases h
      rfl
  rcases error_of_bind h with h | ⟨_, -, h⟩
  · obtain ⟨⟨c, name⟩, hentry, h⟩ := exists_of_mapM_error h
    exact ClassPlan.namesNoTypes_of_build (hinterfaces c (List.of_mem_zip hentry).1) h
  · cases h

end NamesNoTypes

theorem Source.file_eq_error_iff {settings : Settings} {p : SourcePlan} {e : SourceError} :
    file settings p = .error e ↔ p.build settings = .error e := by
  rw [file]
  cases p.build settings <;> simp [bind, Except.bind, pure, Except.pure]

/-- A file without interfaces is refused with a message, and the process does not stop before. -/
theorem Source.file?_eq_error_iff {settings : Settings} {p : SourcePlan}
    (hinterfaces : ∀ c ∈ p.classes, c.interfaces = []) {e : SourceError} :
    file? settings p = some (.error e) ↔ file settings p = .error e := by
  rw [file?]
  cases hbuild : p.build settings with
  | error e' =>
    have hgoes : p.overflows settings = false := by
      rw [SourcePlan.overflows, hbuild]
      exact SourcePlan.namesNoTypes hinterfaces hbuild
    rw [if_neg (by simp [hgoes]), Option.some_inj]
  | ok model =>
    have hok : file settings p ≠ .error e := fun h => by
      rw [file_eq_error_iff, hbuild] at h
      cases h
    split
    · exact iff_of_false nofun hok
    · rw [Option.some_inj]

end TreeScribe
