import TreeScribe.Proofs.TypeRef.Stored
import TreeScribe.Tree.Stored

/-! Members and constants are read from their stored form.

Whole numbers are taken to fit the words they are kept in (`fitsWords`), and the texts of doubles to be read
as those doubles. -/
namespace TreeScribe

open Json Number

/-! ### Names -/

theorem PassingMode.oneOf?_storedName (mode : PassingMode) :
    oneOf? storedName all (.string mode.storedName) = some mode :=
  oneOf?_name (by cases mode <;> decide) (by decide)

theorem MemberKind.oneOf?_storedName (kind : MemberKind) :
    oneOf? storedName all (.string kind.storedName) = some kind :=
  oneOf?_name (by cases kind <;> decide) (by decide)

theorem JumpKind.oneOf?_storedName (kind : JumpKind) :
    oneOf? storedName all (.string kind.storedName) = some kind :=
  oneOf?_name (by cases kind <;> decide) (by decide)

theorem BinaryOp.oneOf?_snakeCase (op : BinaryOp) :
    oneOf? (snakeCase ·.name) all (.string (snakeCase op.name)) = some op :=
  oneOf?_name (mem_all op) (by decide +kernel)

theorem UnaryOp.oneOf?_snakeCase (op : UnaryOp) :
    oneOf? (snakeCase ·.name) all (.string (snakeCase op.name)) = some op :=
  oneOf?_name (mem_all op) (by decide +kernel)

/-! ### Members -/

def ParameterInfo.fitsWords (p : ParameterInfo) : Bool := p.ty.fitsWords

theorem ParameterInfo.stores {p : ParameterInfo} (h : p.fitsWords = true) : Stores ofJson? p.toJson p := by
  have hty := TypeRef.stores h
  constructor
  · simp [ofJson?, toJson, field?, defaulted?, member?, asString?, asBool?, hty.reads,
      PassingMode.oneOf?_storedName]
  · simpa [toJson] using hty.numbers

def MethodInfo.fitsWords (m : MethodInfo) : Bool :=
  m.declaring.fitsWords && m.returnType.fitsWords && m.parameters.all (·.fitsWords) &&
    m.genericParameters.all (·.fitsWords) && m.genericArgs.all (·.fitsWords)

theorem MethodInfo.toJson_ne_null (m : MethodInfo) : m.toJson ≠ .null := nofun

theorem MethodInfo.stores {m : MethodInfo} (h : m.fitsWords = true) : Stores ofJson? m.toJson m := by
  simp only [fitsWords, Bool.and_eq_true, List.all_eq_true] at h
  obtain ⟨⟨⟨⟨hdeclaring, hreturn⟩, hparameters⟩, hgeneric⟩, hargs⟩ := h
  have hdeclaring := TypeRef.stores hdeclaring
  have hreturn := TypeRef.stores hreturn
  have hparameters := stores_list_self fun p hp => ParameterInfo.stores (hparameters p hp)
  have hgeneric := stores_list_self fun t ht => TypeRef.stores (hgeneric t ht)
  have hargs := stores_list_self fun t ht => TypeRef.stores (hargs t ht)
  constructor
  · simp [ofJson?, toJson, field?, defaulted?, member?, asString?, asBool?, hdeclaring.reads,
      hreturn.reads, hparameters.reads, hgeneric.reads, hargs.reads]
  · simp [toJson, hdeclaring.numbers, hreturn.numbers, hparameters.numbers, hgeneric.numbers, hargs.numbers]

theorem MethodInfo.stores_option {o : Option MethodInfo} (h : o.all (·.fitsWords) = true) :
    Stores (nullable? ofJson?) (Json.ofOption toJson o) o :=
  stores_option_self toJson_ne_null fun m hm => stores (Option.all_eq_true _ _ |>.mp h m hm)

def ConstructorInfo.fitsWords (c : ConstructorInfo) : Bool :=
  c.declaring.fitsWords && c.parameters.all (·.fitsWords)

theorem ConstructorInfo.toJson_ne_null (c : ConstructorInfo) : c.toJson ≠ .null := nofun

theorem ConstructorInfo.stores {c : ConstructorInfo} (h : c.fitsWords = true) : Stores ofJson? c.toJson c := by
  simp only [fitsWords, Bool.and_eq_true, List.all_eq_true] at h
  have hdeclaring := TypeRef.stores h.1
  have hparameters := stores_list_self fun p hp => ParameterInfo.stores (h.2 p hp)
  constructor
  · simp [ofJson?, toJson, field?, defaulted?, member?, hdeclaring.reads, hparameters.reads]
  · simp [toJson, hdeclaring.numbers, hparameters.numbers]

def MemberInfo.fitsWords (m : MemberInfo) : Bool := m.declaring.fitsWords && m.memberType.fitsWords

theorem MemberInfo.toJson_ne_null (m : MemberInfo) : m.toJson ≠ .null := nofun

theorem MemberInfo.stores {m : MemberInfo} (h : m.fitsWords = true) : Stores ofJson? m.toJson m := by
  have hdeclaring := TypeRef.stores (Bool.and_eq_true_iff.mp h).1
  have htype := TypeRef.stores (Bool.and_eq_true_iff.mp h).2
  constructor
  · simp [ofJson?, toJson, field?, defaulted?, member?, asString?, asBool?, hdeclaring.reads,
      htype.reads, MemberKind.oneOf?_storedName]
  · simp [toJson, hdeclaring.numbers, htype.numbers]

theorem MemberInfo.stores_option {o : Option MemberInfo} (h : o.all (·.fitsWords) = true) :
    Stores (nullable? ofJson?) (Json.ofOption toJson o) o :=
  stores_option_self toJson_ne_null fun m hm => stores (Option.all_eq_true _ _ |>.mp h m hm)

/-! ### Constants -/

namespace ConstantValue

mutual

/-- Whole numbers fit their words, those in captured variables included. -/
def fitsWords : ConstantValue → Bool
  | .int n => decide (-(2 ^ 63) ≤ n) && decide (n < 2 ^ 63)
  | .uint n => decide (n < 2 ^ 64)
  | .type t => t.fitsWords
  | .closure fields => fieldsFitWords fields
  | _ => true

def fieldsFitWords : List (Captured ConstantValue) → Bool
  | [] => true
  | ⟨_, ty, value⟩ :: fields => ty.fitsWords && fitsWords value && fieldsFitWords fields

end

mutual

/-- The doubles in a constant, those in captured variables included. -/
def floats : ConstantValue → List Binary64
  | .float x => [x]
  | .closure fields => fieldsFloats fields
  | _ => []

def fieldsFloats : List (Captured ConstantValue) → List Binary64
  | [] => []
  | ⟨_, _, value⟩ :: fields => floats value ++ fieldsFloats fields

end

theorem fieldsFitWords_iff {fields : List (Captured ConstantValue)} :
    fieldsFitWords fields = true ↔
      ∀ field ∈ fields, field.ty.fitsWords = true ∧ field.value.fitsWords = true := by
  induction fields with
  | nil => simp [fieldsFitWords]
  | cons field fields ih => simp [fieldsFitWords, ih]

theorem floats_subset {fields : List (Captured ConstantValue)} {field : Captured ConstantValue}
    (h : field ∈ fields) : field.value.floats ⊆ fieldsFloats fields := by
  induction fields with
  | nil => cases h
  | cons first fields ih =>
    rcases List.mem_cons.mp h with rfl | h
    · exact List.subset_append_left ..
    · exact fun x hx => List.mem_append_right _ (ih h hx)

/-- A captured variable, stored. -/
def capturedToJson (field : Captured ConstantValue) : Json :=
  .object [("name", .string field.name), ("ty", field.ty.toJson), ("value", field.value.toJson)]

theorem fieldsToJson_eq (fields : List (Captured ConstantValue)) :
    Json.array (fieldsToJson fields) = Json.ofList capturedToJson fields := by
  refine congrArg Json.array ?_
  induction fields with
  | nil => rfl
  | cons field fields ih =>
    rw [fieldsToJson, ih]
    rfl

theorem depth_value_lt (field : Captured ConstantValue) :
    field.value.toJson.depth < (capturedToJson field).depth :=
  depth_lt_object (List.mem_cons_of_mem _ (List.mem_cons_of_mem _ (List.mem_singleton_self _)))

/-- Reads a captured variable whose value is nested at most `fuel` deep. -/
def capturedUpTo? (fuel : Nat) (j : Json) : Option (Captured ConstantValue) := do
  return {
    name := ← field? j "name" asString?
    ty := ← field? j "ty" TypeRef.ofJson?
    value := ← field? j "value" (ofJsonUpTo? fuel) }

theorem stores_captured {field : Captured ConstantValue} {fuel : Nat} (hty : field.ty.fitsWords = true)
    (hvalue : Stores (ofJsonUpTo? fuel) field.value.toJson field.value) :
    Stores (capturedUpTo? fuel) (capturedToJson field) field := by
  have hty := TypeRef.stores hty
  constructor
  · simp [capturedUpTo?, capturedToJson, field?, member?, asString?, hty.reads, hvalue.reads]
  · simp [capturedToJson, hty.numbers, hvalue.numbers]

section Tagged

variable (kind : String) (j : Json)

@[simp] theorem field?_tagged_kind : field? (tagged kind j) "kind" asString? = some kind := by
  simp [tagged, field?, member?, asString?]

@[simp] theorem field?_tagged_value {α : Type} (read : Json → Option α) :
    field? (tagged kind j) "value" read = read j := by
  simp [tagged, field?, member?]

@[simp] theorem numbersReadBack_tagged : (tagged kind j).NumbersReadBack ↔ j.NumbersReadBack := by
  simp [tagged]

end Tagged

theorem ofJsonUpTo?_closure (fuel : Nat) (j : Json) :
    ofJsonUpTo? (fuel + 1) (tagged "closure" j) = (list? (capturedUpTo? fuel) j).map closure := by
  rw [ofJsonUpTo?, field?_tagged_kind, Option.bind_eq_bind, Option.bind_some]
  simp only [field?_tagged_value]
  exact Option.map_eq_bind.symm

theorem ofJsonUpTo?_uint (fuel : Nat) (j : Json) :
    ofJsonUpTo? (fuel + 1) (tagged "u_int" j) = (asNatBelow? UInt64.size j).map uint := by
  rw [ofJsonUpTo?, field?_tagged_kind, Option.bind_eq_bind, Option.bind_some]
  simp only [field?_tagged_value]
  exact Option.map_eq_bind.symm

/-- A constant is kept by its stored form, given fuel for the depth of that. -/
theorem stores_upTo (fuel : Nat) : ∀ v : ConstantValue, v.fitsWords = true →
    (∀ x ∈ v.floats, (Numeral.real x).ReadsBack) → v.toJson.depth ≤ fuel →
    Stores (ofJsonUpTo? fuel) v.toJson v := by
  induction fuel with
  | zero =>
    intro v _ _ hdepth
    cases v <;> cases hdepth
  | succ fuel ih =>
    intro v hwords hfloats hdepth
    cases v with
    | int n =>
      simp only [fitsWords, Bool.and_eq_true, decide_eq_true_eq] at hwords
      have hn : (Numeral.whole n).ReadsBack := Numeral.readsBack_whole hwords.1 (by omega)
      exact ⟨by simp [ofJsonUpTo?, toJson, asSigned?_ofInt hwords.1 hwords.2], by simp [toJson, ofInt, hn]⟩
    | uint n =>
      simp only [fitsWords, decide_eq_true_eq] at hwords
      have hn : (Numeral.whole n).ReadsBack := Numeral.readsBack_whole (by omega) (by omega)
      refine ⟨?_, by simp [toJson, Json.ofNat, hn]⟩
      rw [toJson, ofJsonUpTo?_uint, @asNatBelow?_ofNat UInt64.size n hwords]
      rfl
    | float x =>
      have hx : (Numeral.real x).ReadsBack := hfloats x (List.mem_singleton_self x)
      exact ⟨by simp [ofJsonUpTo?, toJson, asReal?], by simp [toJson, hx]⟩
    | type t =>
      have ht := TypeRef.stores hwords
      exact ⟨by simp [ofJsonUpTo?, toJson, ht.reads], by simp [toJson, ht.numbers]⟩
    | closure fields =>
      have hwords := fieldsFitWords_iff.mp hwords
      rw [toJson, fieldsToJson_eq] at hdepth ⊢
      simp only [tagged, depth, depthFields] at hdepth
      have hvalue : ∀ field ∈ fields, Stores (ofJsonUpTo? fuel) field.value.toJson field.value := by
        intro field hfield
        have hlt := depth_lt_ofList capturedToJson hfield
        have hvalue := depth_value_lt field
        exact ih field.value (hwords field hfield).2 (fun x hx => hfloats x (floats_subset hfield hx))
          (by omega)
      have hfields := stores_list_self fun field hfield =>
        stores_captured (hwords field hfield).1 (hvalue field hfield)
      refine ⟨?_, (numbersReadBack_tagged _ _).mpr hfields.numbers⟩
      rw [ofJsonUpTo?_closure, hfields.reads]
      rfl
    | null => exact ⟨by simp [ofJsonUpTo?, toJson, field?, optional?_eq, member?, asString?],
        by simp [toJson]⟩
    | bool b => exact ⟨by simp [ofJsonUpTo?, toJson, asBool?], by simp [toJson]⟩
    | char c => exact ⟨by simp [ofJsonUpTo?, toJson, char?_singleton], by simp [toJson]⟩
    | decimal | string | enumMember | object =>
      exact ⟨by simp [ofJsonUpTo?, toJson, asString?], by simp [toJson]⟩

/-- **A constant is read from its stored form.** -/
theorem stores {v : ConstantValue} (hwords : v.fitsWords = true)
    (hfloats : ∀ x ∈ v.floats, (Numeral.real x).ReadsBack) : Stores ofJson? v.toJson v where
  reads := (stores_upTo _ v hwords hfloats (Nat.le_refl _)).reads
  numbers := (stores_upTo _ v hwords hfloats (Nat.le_refl _)).numbers

end ConstantValue

end TreeScribe
