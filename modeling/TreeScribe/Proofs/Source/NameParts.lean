import TreeScribe.Diagnostic
import TreeScribe.Proofs.Layout.Shift

/-! Parts of names: which are valid, and what a suggestion makes of those that are not.

A part is valid if it consists of letters, digits and underscores, is not empty, has no digit in front and is
not reserved (`nameFault?_eq_none_iff`). A suggestion keeps the characters that may stand in names and puts an
underscore before a digit. Reserved words it does not look at: so a suggested name is valid exactly if none of
its parts has become one (`suggestion_valid_iff`). -/
namespace TreeScribe

/-! ### Blanks -/

namespace Text

def blankCodes : List Nat :=
  List.range' 0x9 5 ++ [0x20, 0x85, 0xA0, 0x1680] ++ List.range' 0x2000 11 ++
    [0x2028, 0x2029, 0x202F, 0x205F, 0x3000]

theorem toNat_mem_blankCodes {c : Char} (h : isBlank c = true) : c.toNat ∈ blankCodes := by
  simp only [isBlank, Bool.or_eq_true, Bool.and_eq_true, decide_eq_true_eq, beq_iff_eq] at h
  rcases h with (((((((((h | h) | h) | h) | h) | h) | h) | h) | h) | h) | h
  case inl.inl.inl.inl.inl.inl.inl.inl.inl.inl =>
    have hcontrols : c.toNat ∈ List.range' 0x9 5 := List.mem_range'_1.mpr (by omega)
    exact List.mem_append_left _ (List.mem_append_left _ (List.mem_append_left _ hcontrols))
  case inl.inl.inl.inl.inl.inr =>
    have hspaces : c.toNat ∈ List.range' 0x2000 11 := List.mem_range'_1.mpr (by omega)
    exact List.mem_append_left _ (List.mem_append_right _ hspaces)
  all_goals
    rw [h]
    decide

end Text

/-- No blank may stand in a name, whatever its script. -/
theorem isNameChar_of_isBlank {c : Char} (h : Text.isBlank c = true) : isNameChar c = false := by
  have hcodes : ∀ n ∈ Text.blankCodes, isNameChar (Char.ofNat n) = false := by decide +kernel
  have hc := hcodes c.toNat (Text.toNat_mem_blankCodes h)
  rwa [Char.ofNat_toNat] at hc

theorem trim_of_nameChars {part : List Char} (h : ∀ c ∈ part, isNameChar c = true) :
    Text.trim part = part := by
  refine Text.trim_eq_self fun c hc => ?_
  cases hblank : Text.isBlank c with
  | false => rfl
  | true => exact absurd (h c hc) (by simp [isNameChar_of_isBlank hblank])

/-! ### Valid parts -/

section Parts

variable {part : List Char}

/-- Of characters that may stand in names and without a digit in front, only a reserved word is no name. -/
theorem nameFault?_of_nameChars (h : ∀ c ∈ part, isNameChar c = true)
    (hdigit : part.head?.any Char.isDigit = false) :
    nameFault? part =
      if part = [] then some .blank
      else if isReserved (String.ofList part) then some .reserved
      else none := by
  have hfind : part.find? (!isNameChar ·) = none :=
    List.find?_eq_none.mpr fun c hc => by simp [h c hc]
  unfold nameFault?
  rw [trim_of_nameChars h, hfind]
  simp [hdigit]

theorem nameFault?_eq_none_iff : nameFault? part = none ↔
    part ≠ [] ∧ (∀ c ∈ part, isNameChar c = true) ∧ part.head?.any Char.isDigit = false ∧
      isReserved (String.ofList part) = false := by
  constructor
  · intro h
    have hchars : ∀ c ∈ part, isNameChar c = true := by
      unfold nameFault? at h
      split at h
      · cases h
      · split at h
        · cases h
        next hfind =>
          intro c hc
          simpa using List.find?_eq_none.mp hfind c hc
    have hdigit : part.head?.any Char.isDigit = false := by
      rw [← Bool.not_eq_true]
      intro hstart
      unfold nameFault? at h
      rw [if_pos hstart] at h
      split at h
      · cases h
      · split at h <;> cases h
    rw [nameFault?_of_nameChars hchars hdigit] at h
    split at h
    · cases h
    next hne =>
      split at h
      · cases h
      next hfree => exact ⟨hne, hchars, hdigit, by simpa using hfree⟩
  · rintro ⟨hne, hchars, hdigit, hfree⟩
    rw [nameFault?_of_nameChars hchars hdigit, if_neg hne, hfree]
    rfl

end Parts

theorem validateName_ok_iff {kind : NameKind} {name : String} :
    validateName kind name = .ok () ↔ ∀ part ∈ nameParts kind name, nameFault? part = none := by
  rw [← List.findSome?_eq_none_iff]
  unfold validateName
  cases (nameParts kind name).findSome? nameFault? with
  | none => exact iff_of_true rfl rfl
  | some fault => exact iff_of_false nofun nofun

theorem fault_of_validateName {kind : NameKind} {name : String} {e : SourceError}
    (h : validateName kind name = .error e) :
    ∃ part ∈ nameParts kind name, ∃ fault,
      nameFault? part = some fault ∧ e = .invalidName kind name fault := by
  unfold validateName at h
  split at h
  next fault hfault =>
    cases h
    obtain ⟨part, hpart, hfault⟩ := List.exists_of_findSome?_eq_some hfault
    exact ⟨part, hpart, fault, hfault, rfl⟩
  · cases h

/-! ### What is left of a part -/

theorem nameChars_cleanPart (part : List Char) : ∀ c ∈ cleanPart part, isNameChar c = true := by
  have hkept : ∀ c ∈ (Text.trim part).filter isNameChar, isNameChar c = true := fun c hc =>
    (List.mem_filter.mp hc).2
  have hunderscore : isNameChar '_' = true := by decide
  unfold cleanPart
  dsimp only
  split
  · exact List.forall_mem_cons.mpr ⟨hunderscore, hkept⟩
  · exact hkept

theorem head?_cleanPart (part : List Char) : (cleanPart part).head?.any Char.isDigit = false := by
  unfold cleanPart
  dsimp only
  split
  · rfl
  next h => simpa using h

/-- What is left of the parts of a name, without those that vanish. -/
def suggestedParts (kind : NameKind) (name : String) : List (List Char) :=
  ((nameParts kind name).map cleanPart).filter (!·.isEmpty)

theorem mem_suggestedParts {kind : NameKind} {name : String} {part : List Char} :
    part ∈ suggestedParts kind name ↔ part ≠ [] ∧ ∃ p ∈ nameParts kind name, cleanPart p = part := by
  simp [suggestedParts, and_comm]

/-! ### Suggested names -/

/-- A suggestion joins what is left, whether or not names of the kind have several parts. -/
theorem suggestedName?_eq (kind : NameKind) (name : String) :
    suggestedName? kind name =
      let fixed := String.ofList (['.'].intercalate (suggestedParts kind name))
      if fixed.isEmpty || fixed == name then none else some fixed := by
  have hone (part : List Char) : ['.'].intercalate ([part].filter (!·.isEmpty)) = [part].flatten := by
    cases part <;> simp
  cases kind with
  | ofNamespace => rfl
  | ofClass | ofMethod =>
    unfold suggestedName? suggestedParts nameParts
    rw [List.map_singleton, hone]

section Suggestions

variable {kind : NameKind} {name fixed : String}

/-- What is suggested divides into what is left. -/
theorem nameParts_suggested (h : suggestedName? kind name = some fixed) :
    nameParts kind fixed = suggestedParts kind name := by
  rw [suggestedName?_eq] at h
  dsimp only at h
  split at h
  · cases h
  next hkept =>
    obtain ⟨hempty, -⟩ := not_or.mp (mt (Bool.or_eq_true ..).mpr hkept)
    cases h
    have hne : suggestedParts kind name ≠ [] := fun hnil => hempty (by rw [hnil]; rfl)
    cases kind with
    | ofNamespace =>
      rw [nameParts, String.toList_ofList]
      refine Text.splitOn_intercalate hne fun part hpart hdot => ?_
      obtain ⟨-, p, -, rfl⟩ := mem_suggestedParts.mp hpart
      exact absurd (nameChars_cleanPart p _ hdot) (by decide)
    | ofClass | ofMethod =>
      have hone : [name.toList].map cleanPart = [cleanPart name.toList] := rfl
      unfold suggestedParts nameParts at hne ⊢
      rw [hone] at hne
      rw [String.toList_ofList, hone]
      cases hpart : cleanPart name.toList with
      | nil => exact absurd (by rw [hpart]; rfl) hne
      | cons c cs => exact congrArg ([·]) (List.intercalate_singleton ..)

/-- All that can be wrong with a part of a suggestion is that it is reserved. -/
theorem fault_suggested (h : suggestedName? kind name = some fixed) {part : List Char}
    (hpart : part ∈ nameParts kind fixed) :
    nameFault? part = if isReserved (String.ofList part) then some .reserved else none := by
  rw [nameParts_suggested h] at hpart
  obtain ⟨hne, p, -, rfl⟩ := mem_suggestedParts.mp hpart
  rw [nameFault?_of_nameChars (nameChars_cleanPart p) (head?_cleanPart p), if_neg hne]

/-- **A name that is suggested for one that is refused is valid exactly if nothing that is left of a part is a
reserved word**, and this is the one reason for which it may be refused again. -/
theorem suggestion_valid_iff {e : SourceError} (hrefused : validateName kind name = .error e)
    (h : suggestedName? kind name = some fixed) :
    ("did you mean '" ++ fixed ++ "'?") ∈ e.help ∧
      (validateName kind fixed = .ok () ↔
        ∀ part ∈ nameParts kind name, isReserved (String.ofList (cleanPart part)) = false) ∧
      ∀ e', validateName kind fixed = .error e' → e' = .invalidName kind fixed .reserved := by
  refine ⟨?_, ?_, fun e' he' => ?_⟩
  · obtain ⟨part, -, fault, -, rfl⟩ := fault_of_validateName hrefused
    simp [SourceError.help, h]
  · rw [validateName_ok_iff]
    constructor
    · intro hvalid part hpart
      by_cases hvanished : cleanPart part = []
      · rw [hvanished]
        decide
      · have hleft : cleanPart part ∈ nameParts kind fixed := by
          rw [nameParts_suggested h]
          exact mem_suggestedParts.mpr ⟨hvanished, part, hpart, rfl⟩
        have hfault := hvalid _ hleft
        rw [fault_suggested h hleft] at hfault
        simpa using hfault
    · intro hfree part hpart
      rw [fault_suggested h hpart]
      rw [nameParts_suggested h] at hpart
      obtain ⟨-, p, hp, rfl⟩ := mem_suggestedParts.mp hpart
      rw [hfree p hp]
      rfl
  · obtain ⟨part, hpart, fault, hfault, rfl⟩ := fault_of_validateName he'
    rw [fault_suggested h hpart] at hfault
    split at hfault
    · cases hfault
      rfl
    · cases hfault

end Suggestions

/-- Of four parts one vanishes, one gets an underscore, and one becomes a reserved word. -/
theorem suggestion_becomesReserved :
    let name := "My App.cl-ass..1st"
    suggestedName? .ofNamespace name = some "MyApp.class._1st" ∧
      validateName .ofNamespace name = .error (.invalidName .ofNamespace name (.contains ' ')) ∧
      validateName .ofNamespace "MyApp.class._1st" ≠ .ok () := by
  intro name
  have hsuggested : suggestedName? .ofNamespace name = some "MyApp.class._1st" := by decide +kernel
  have hrefused : validateName .ofNamespace name =
      .error (.invalidName .ofNamespace name (.contains ' ')) := by decide +kernel
  refine ⟨hsuggested, hrefused, fun hvalid => ?_⟩
  have hfree := (suggestion_valid_iff hrefused hsuggested).2.1.mp hvalid
  have hreserved : ∃ part ∈ nameParts .ofNamespace name,
      isReserved (String.ofList (cleanPart part)) = true := by decide +kernel
  obtain ⟨part, hpart, hword⟩ := hreserved
  rw [hfree part hpart] at hword
  cases hword

end TreeScribe
