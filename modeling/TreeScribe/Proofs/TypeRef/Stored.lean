import TreeScribe.Proofs.Json.Field
import TreeScribe.TypeRef.Stored

/-! Types are read from their stored form. -/
namespace TreeScribe.TypeRef

open Json

mutual

/-- The rank of every array in a type fits a byte. -/
def fitsWords : TypeRef → Bool
  | ⟨_, _, _, declaring, args, element, rank, _, _⟩ =>
    decide (rank < 256) && optionFitsWords declaring && listFitsWords args && optionFitsWords element

def optionFitsWords : Option TypeRef → Bool
  | none => true
  | some t => fitsWords t

def listFitsWords : List TypeRef → Bool
  | [] => true
  | t :: ts => fitsWords t && listFitsWords ts

end

theorem optionFitsWords_iff {o : Option TypeRef} : optionFitsWords o = true ↔ ∀ t ∈ o, t.fitsWords = true := by
  cases o <;> simp [optionFitsWords]

theorem listFitsWords_iff {ts : List TypeRef} : listFitsWords ts = true ↔ ∀ t ∈ ts, t.fitsWords = true := by
  induction ts with
  | nil => simp [listFitsWords]
  | cons t ts ih => simp [listFitsWords, ih]

theorem fitsWords_iff {t : TypeRef} :
    t.fitsWords = true ↔ t.rank < 256 ∧ (∀ d ∈ t.declaring, d.fitsWords = true) ∧
      (∀ a ∈ t.args, a.fitsWords = true) ∧ ∀ e ∈ t.element, e.fitsWords = true := by
  cases t
  simp [fitsWords, optionFitsWords_iff, listFitsWords_iff, and_assoc]

theorem optionToJson_eq (o : Option TypeRef) : optionToJson o = Json.ofOption toJson o := by
  cases o <;> rfl

theorem listToJson_eq (ts : List TypeRef) : Json.array (listToJson ts) = Json.ofList toJson ts := by
  refine congrArg Json.array ?_
  induction ts with
  | nil => rfl
  | cons t ts ih => rw [listToJson, ih, List.map_cons]

theorem toJson_eq (t : TypeRef) : t.toJson =
    .object [("kind", .string t.kind.storedName), ("namespace", Json.ofOption .string t.nameSpace),
      ("name", .string t.name), ("declaring_type", Json.ofOption toJson t.declaring),
      ("generic_args", Json.ofList toJson t.args), ("element_type", Json.ofOption toJson t.element),
      ("rank", Json.ofNat t.rank), ("is_anonymous", .bool t.isAnonymous),
      ("is_closure", .bool t.isClosure)] := by
  cases t
  rw [toJson, optionToJson_eq, optionToJson_eq, listToJson_eq]

theorem toJson_ne_null (t : TypeRef) : t.toJson ≠ .null := by
  rw [toJson_eq]
  nofun

/-- A type is kept by its stored form, given fuel for the depth of that. -/
theorem stores_upTo (fuel : Nat) : ∀ t : TypeRef, t.fitsWords = true → t.toJson.depth ≤ fuel →
    Stores (ofJsonUpTo? fuel) t.toJson t := by
  induction fuel with
  | zero =>
    intro t _ hdepth
    rw [toJson_eq, depth] at hdepth
    cases hdepth
  | succ fuel ih =>
    intro t hfits hdepth
    obtain ⟨hrank, hdeclaring, hargs, helement⟩ := fitsWords_iff.mp hfits
    rw [toJson_eq] at hdepth
    simp only [depth, depthFields] at hdepth
    have hdeclaring := stores_option_self toJson_ne_null fun d hd =>
      ih d (hdeclaring d hd) (by rw [depth_ofOption toJson hd] at hdepth; omega)
    have helement := stores_option_self toJson_ne_null fun e he =>
      ih e (helement e he) (by rw [depth_ofOption toJson he] at hdepth; omega)
    have hargs := stores_list_self fun a ha =>
      ih a (hargs a ha) (by have := depth_lt_ofList toJson ha; omega)
    have hspace := stores_string_option t.nameSpace
    have hkind : oneOf? TypeKind.storedName TypeKind.all (.string t.kind.storedName) = some t.kind :=
      oneOf?_name (by cases t.kind <;> decide) (by decide)
    have hrankText : (Numeral.whole t.rank).ReadsBack := Numeral.readsBack_whole (by omega) (by omega)
    rw [toJson_eq]
    constructor
    · simp [ofJsonUpTo?, field?, defaulted?, optional?_eq, member?, asString?, asBool?, hkind,
        hspace.reads, hdeclaring.reads, hargs.reads, helement.reads, asNatBelow?_ofNat hrank]
      cases t
      rfl
    · simp [hspace.numbers, hdeclaring.numbers, hargs.numbers, helement.numbers, Json.ofNat, hrankText]

/-- **A type is read from its stored form.** -/
theorem stores {t : TypeRef} (h : t.fitsWords = true) : Stores ofJson? t.toJson t where
  reads := (stores_upTo _ t h (Nat.le_refl _)).reads
  numbers := (stores_upTo _ t h (Nat.le_refl _)).numbers

end TreeScribe.TypeRef
