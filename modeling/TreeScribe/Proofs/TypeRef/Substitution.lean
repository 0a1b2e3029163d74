import Mathlib.Data.List.Basic
import TreeScribe.Source.Interface

/-! Closing types over generic arguments.

Parameters are replaced everywhere in a type at once (`replaced`), and leaving a type alone that mentions
none of them changes nothing about that (`substitute_eq_replaced`). So what is closed over arguments without
parameters mentions none of them, and closing it again does nothing (`substitute_spec`).

The name of an array is made of that of its elements, and closing an array keeps it. So closing an array
gives the array of the closed elements exactly if these are not themselves a parameter whose argument is
named in another way (`closed_arrays`). -/
namespace TreeScribe.TypeRef

variable {ps as : List TypeRef}

/-! ### Parts of types -/

mutual

/-- What passes from the element type and the arguments of a type to the type holds of all types. -/
theorem partsInduction {P : TypeRef → Prop}
    (h : ∀ t : TypeRef, (∀ e ∈ t.element, P e) → (∀ a ∈ t.args, P a) → P t) : (t : TypeRef) → P t
  | ⟨k, space, name, declaring, args, element, rank, anonymous, closure⟩ =>
    h ⟨k, space, name, declaring, args, element, rank, anonymous, closure⟩
      (partsInduction_element h element) (partsInduction_args h args)

theorem partsInduction_element {P : TypeRef → Prop}
    (h : ∀ t : TypeRef, (∀ e ∈ t.element, P e) → (∀ a ∈ t.args, P a) → P t) :
    (element : Option TypeRef) → ∀ e ∈ element, P e
  | none => nofun
  | some e => fun e' he => by
    obtain rfl : e = e' := Option.some.inj he
    exact partsInduction h e

theorem partsInduction_args {P : TypeRef → Prop}
    (h : ∀ t : TypeRef, (∀ e ∈ t.element, P e) → (∀ a ∈ t.args, P a) → P t) :
    (args : List TypeRef) → ∀ a ∈ args, P a
  | [] => nofun
  | a :: args => List.forall_mem_cons.mpr ⟨partsInduction h a, partsInduction_args h args⟩

end

theorem occursInElement_iff {p : TypeRef} {element : Option TypeRef} :
    occursInElement p element = true ↔ ∃ e ∈ element, p.occursIn e = true := by
  cases element <;> simp [occursInElement]

theorem occursInAny_iff {p : TypeRef} {ts : List TypeRef} :
    occursInAny p ts = true ↔ ∃ t ∈ ts, p.occursIn t = true := by
  induction ts with
  | nil => simp [occursInAny]
  | cons t ts ih => simp [occursInAny, ih]

theorem occursIn_iff {p t : TypeRef} :
    p.occursIn t = true ↔
      t = p ∨ (∃ e ∈ t.element, p.occursIn e = true) ∨ ∃ a ∈ t.args, p.occursIn a = true := by
  cases t
  rw [occursIn, Bool.or_eq_true, Bool.or_eq_true, decide_eq_true_iff, occursInElement_iff, occursInAny_iff,
    or_assoc]

/-- The type mentions none of the parameters. -/
def Avoids (ps : List TypeRef) (t : TypeRef) : Prop := ∀ p ∈ ps, p.occursIn t = false

instance (ps : List TypeRef) (t : TypeRef) : Decidable (t.Avoids ps) :=
  inferInstanceAs (Decidable (∀ p ∈ ps, _))

theorem avoids_iff {t : TypeRef} :
    t.Avoids ps ↔ t ∉ ps ∧ (∀ e ∈ t.element, e.Avoids ps) ∧ ∀ a ∈ t.args, a.Avoids ps := by
  have hparts (p : TypeRef) : p.occursIn t = false ↔
      t ≠ p ∧ (∀ e ∈ t.element, p.occursIn e = false) ∧ ∀ a ∈ t.args, p.occursIn a = false := by
    rw [← Bool.not_eq_true, occursIn_iff]
    simp
  simp only [Avoids, hparts]
  grind

theorem any_occursIn_iff {t : TypeRef} : ps.any (occursIn · t) = true ↔ ¬t.Avoids ps := by
  simp [Avoids]

/-! ### Replacing all at once -/

/-- A type with other parts. -/
def mapParts (f : TypeRef → TypeRef) (t : TypeRef) : TypeRef :=
  { t with args := t.args.map f, element := t.element.map f }

theorem mapParts_eq_self {f : TypeRef → TypeRef} {t : TypeRef} (helement : ∀ e ∈ t.element, f e = e)
    (hargs : ∀ a ∈ t.args, f a = a) : t.mapParts f = t := by
  have hsame : t.args.map f = t.args := by
    conv_rhs => rw [← List.map_id t.args]
    exact List.map_congr_left hargs
  have hsome : t.element.map f = t.element := by
    cases ht : t.element with
    | none => rfl
    | some e => exact congrArg some (helement e ht)
  rw [mapParts, hsame, hsome]
  cases t
  rfl

mutual

/-- Every parameter in a type replaced by its argument, without a look at what the type mentions. -/
def replaced (ps as : List TypeRef) : TypeRef → TypeRef
  | ⟨k, space, name, declaring, args, element, rank, anonymous, closure⟩ =>
    ((ps.zip as).lookup ⟨k, space, name, declaring, args, element, rank, anonymous, closure⟩).getD
      ⟨k, space, name, declaring, replacedAll ps as args, replacedElement ps as element, rank, anonymous,
        closure⟩

def replacedElement (ps as : List TypeRef) : Option TypeRef → Option TypeRef
  | none => none
  | some t => some (replaced ps as t)

def replacedAll (ps as : List TypeRef) : List TypeRef → List TypeRef
  | [] => []
  | t :: ts => replaced ps as t :: replacedAll ps as ts

end

theorem replacedAll_eq (ts : List TypeRef) : replacedAll ps as ts = ts.map (replaced ps as) := by
  induction ts with
  | nil => rfl
  | cons t ts ih => rw [replacedAll, ih, List.map_cons]

theorem replaced_eq (t : TypeRef) :
    t.replaced ps as = ((ps.zip as).lookup t).getD (t.mapParts (replaced ps as)) := by
  obtain ⟨k, space, name, declaring, args, element, rank, anonymous, closure⟩ := t
  rw [replaced, replacedAll_eq]
  cases element <;> rfl

/-- The argument at the place of a parameter is the one it is paired with. -/
theorem argumentFor?_eq_lookup (ps as : List TypeRef) (t : TypeRef) :
    argumentFor? ps as t = (ps.zip as).lookup t := by
  induction ps generalizing as with
  | nil => rfl
  | cons p ps ih =>
    cases as with
    | nil =>
      unfold argumentFor?
      split <;> rfl
    | cons a as =>
      rw [List.zip_cons_cons, List.lookup_cons, ← ih as, argumentFor?, argumentFor?, List.findIdx?_cons]
      by_cases hp : p = t
      · simp [hp]
      · have hne : (t == p) = false := by simpa using Ne.symm hp
        rw [hne, decide_eq_false hp]
        cases ps.findIdx? (decide <| · = t) <;> rfl

theorem substituteAll_eq (ts : List TypeRef) : substituteAll ps as ts = ts.map (substitute ps as) := by
  induction ts with
  | nil => rfl
  | cons t ts ih => rw [substituteAll, ih, List.map_cons]

theorem substitute_eq (t : TypeRef) :
    t.substitute ps as =
      (argumentFor? ps as t).getD
        (if ps.any (occursIn · t) then t.mapParts (substitute ps as) else t) := by
  obtain ⟨k, space, name, declaring, args, element, rank, anonymous, closure⟩ := t
  rw [substitute, substituteAll_eq]
  split
  next a ha => rw [ha, Option.getD_some]
  next hnone =>
    rw [hnone, Option.getD_none]
    cases element <;> rfl

theorem lookup_eq_none {t : TypeRef} (h : t ∉ ps) : (ps.zip as).lookup t = none := by
  refine List.lookup_eq_none_iff.mpr fun entry hentry => ?_
  have hmem : entry.1 ∈ ps := (List.of_mem_zip hentry).1
  have hne : t ≠ entry.1 := fun ht => h (ht ▸ hmem)
  simpa using hne

/-- A type that mentions none of the parameters stays as it is. -/
theorem replaced_eq_self (t : TypeRef) (h : t.Avoids ps) : t.replaced ps as = t := by
  induction t using partsInduction with
  | h t helement hargs =>
    obtain ⟨hself, helements, hall⟩ := avoids_iff.mp h
    rw [replaced_eq, lookup_eq_none hself, Option.getD_none]
    exact mapParts_eq_self (fun e he => helement e he (helements e he)) fun a ha => hargs a ha (hall a ha)

/-- **Nothing is lost by leaving types alone that mention no parameter.** -/
theorem substitute_eq_replaced (t : TypeRef) : t.substitute ps as = t.replaced ps as := by
  induction t using partsInduction with
  | h t helement hargs =>
    have hparts : t.mapParts (substitute ps as) = t.mapParts (replaced ps as) := by
      rw [mapParts, mapParts, List.map_congr_left hargs, Option.map_congr helement]
    rw [substitute_eq, argumentFor?_eq_lookup, replaced_eq, ← hparts]
    split
    · rfl
    next hnone =>
      have havoids : t.Avoids ps := Classical.not_not.mp fun h => hnone (any_occursIn_iff.mpr h)
      obtain ⟨-, helements, hall⟩ := avoids_iff.mp havoids
      have hsame : t.mapParts (substitute ps as) = t :=
        hparts.trans (mapParts_eq_self (fun e he => replaced_eq_self e (helements e he))
          fun a ha => replaced_eq_self a (hall a ha))
      rw [hsame]

/-- What stands for a parameter is one of the arguments. -/
theorem mem_of_lookup_zip {t a : TypeRef} (h : (ps.zip as).lookup t = some a) : t ∈ ps ∧ a ∈ as := by
  obtain ⟨before, after, hentries, -⟩ := List.lookup_eq_some_iff.mp h
  exact List.of_mem_zip (hentries ▸ List.mem_append_right _ (List.mem_cons_self ..))

/-- A parameter that has an argument is replaced by it. -/
theorem lookup_zip_isSome (hlength : ps.length ≤ as.length) {p : TypeRef} (hp : p ∈ ps) :
    ((ps.zip as).lookup p).isSome = true := by
  rw [Option.isSome_iff_ne_none]
  intro hnone
  rw [← List.map_fst_zip hlength] at hp
  obtain ⟨entry, hentry, rfl⟩ := List.mem_map.mp hp
  simpa using List.lookup_eq_none_iff.mp hnone entry hentry

/-- A type that consists of its name alone, as parameters do. -/
structure IsBare (t : TypeRef) : Prop where
  element : t.element = none
  args : t.args = []

/-- **The parameters are gone** once all of them are replaced by types that do not mention them. -/
theorem avoids_replaced (hps : ∀ p ∈ ps, p.IsBare) (hlength : ps.length ≤ as.length)
    (has : ∀ a ∈ as, a.Avoids ps) (t : TypeRef) : (t.replaced ps as).Avoids ps := by
  induction t using partsInduction with
  | h t helement hargs =>
    rw [replaced_eq]
    cases hlookup : (ps.zip as).lookup t with
    | some a => exact has a (mem_of_lookup_zip hlookup).2
    | none =>
      rw [Option.getD_none]
      refine avoids_iff.mpr ⟨fun hmem => ?_, ?_, List.forall_mem_map.mpr hargs⟩
      · -- a parameter has no parts, so that the type has none either and is the parameter
        obtain ⟨hnone, hnil⟩ := hps _ hmem
        have hsame : t.mapParts (replaced ps as) = t :=
          mapParts_eq_self (by simp [Option.map_eq_none_iff.mp hnone]) (by simp [List.map_eq_nil_iff.mp hnil])
        have hsome := lookup_zip_isSome hlength (hsame ▸ hmem)
        rw [hlookup] at hsome
        cases hsome
      · intro e he
        obtain ⟨e', he', rfl⟩ := Option.map_eq_some_iff.mp he
        exact helement e' he'

/-- **Closing a type over arguments for its parameters** replaces every one of them at once, and leaves
none: a type that mentions none is left as it is, and so is a closed one. -/
theorem substitute_spec (hps : ∀ p ∈ ps, p.IsBare) (hlength : ps.length ≤ as.length)
    (has : ∀ a ∈ as, a.Avoids ps) (t : TypeRef) :
    t.substitute ps as = t.replaced ps as ∧ (t.substitute ps as).Avoids ps ∧
      (t.substitute ps as).substitute ps as = t.substitute ps as ∧
      (t.Avoids ps → t.substitute ps as = t) := by
  have hclosed : (t.substitute ps as).Avoids ps := by
    rw [substitute_eq_replaced]
    exact avoids_replaced hps hlength has t
  have hkept (u : TypeRef) (hu : u.Avoids ps) : u.substitute ps as = u := by
    rw [substitute_eq_replaced]
    exact replaced_eq_self u hu
  exact ⟨substitute_eq_replaced t, hclosed, hkept _ hclosed, hkept t⟩

/-- `Dictionary<K, V[]>[]` for strings and lists of numbers. -/
theorem substitute_spec_dictionary :
    let k := parameter "K"
    let v := parameter "V"
    let numbers := (named .classType "System.Collections.Generic" "List`1").withArgs [int]
    let table := (named .classType "System.Collections.Generic" "Dictionary`2").withArgs [k, arrayOf v]
    let closed := (arrayOf table).substitute [k, v] [string, numbers]
    closed = (arrayOf table).replaced [k, v] [string, numbers] ∧ closed.Avoids [k, v] ∧
      closed.substitute [k, v] [string, numbers] = closed ∧ ¬(arrayOf table).Avoids [k, v] := by
  intro k v numbers table closed
  have hbare (name : String) : (parameter name).IsBare := ⟨rfl, rfl⟩
  have hspec := @substitute_spec [k, v] [string, numbers] (by simp [k, v, hbare]) (Nat.le_refl 2)
    (by decide +kernel) (arrayOf table)
  exact ⟨hspec.1, hspec.2.1, hspec.2.2.1, by decide +kernel⟩

/-! ### Arrays -/

/-- All arrays in a type are made of their elements. -/
inductive IsMade : TypeRef → Prop
  | named {t : TypeRef} (helement : t.element = none) (hargs : ∀ a ∈ t.args, IsMade a) : IsMade t
  | array {e : TypeRef} (rank : Nat) (helement : IsMade e) : IsMade (arrayOfRank e rank)

mutual

/-- The type with its parameters replaced in which arrays are made anew, of their new elements. -/
def remade (ps as : List TypeRef) : TypeRef → TypeRef
  | ⟨k, space, name, declaring, args, some element, rank, anonymous, closure⟩ =>
    (argumentFor? ps as ⟨k, space, name, declaring, args, some element, rank, anonymous, closure⟩).getD
      (arrayOfRank (remade ps as element) rank)
  | ⟨k, space, name, declaring, args, none, rank, anonymous, closure⟩ =>
    (argumentFor? ps as ⟨k, space, name, declaring, args, none, rank, anonymous, closure⟩).getD
      ⟨k, space, name, declaring, remadeAll ps as args, none, rank, anonymous, closure⟩

def remadeAll (ps as : List TypeRef) : List TypeRef → List TypeRef
  | [] => []
  | t :: ts => remade ps as t :: remadeAll ps as ts

end

theorem remadeAll_eq (ts : List TypeRef) : remadeAll ps as ts = ts.map (remade ps as) := by
  induction ts with
  | nil => rfl
  | cons t ts ih => rw [remadeAll, ih, List.map_cons]

/-- The type is a parameter, and its argument has another name or namespace. -/
def IsRenamed (ps as : List TypeRef) (t : TypeRef) : Prop :=
  ∃ a ∈ argumentFor? ps as t, ¬(a.name = t.name ∧ a.nameSpace = t.nameSpace)

/-- Somewhere in a type is an array of a parameter that gets another name. -/
inductive HasStaleArray (ps as : List TypeRef) : TypeRef → Prop
  | here {e : TypeRef} (rank : Nat) (h : IsRenamed ps as e) : HasStaleArray ps as (arrayOfRank e rank)
  | element {e : TypeRef} (rank : Nat) (h : HasStaleArray ps as e) : HasStaleArray ps as (arrayOfRank e rank)
  | argument {t a : TypeRef} (hkept : argumentFor? ps as t = none) (ha : a ∈ t.args)
      (h : HasStaleArray ps as a) : HasStaleArray ps as t

theorem hasStaleArray_arrayOfRank_iff {e : TypeRef} {rank : Nat} :
    HasStaleArray ps as (arrayOfRank e rank) ↔ IsRenamed ps as e ∨ HasStaleArray ps as e := by
  constructor
  · generalize ht : arrayOfRank e rank = t
    intro h
    have helement : t.element = some e := ht ▸ rfl
    have hargs : t.args = [] := ht ▸ rfl
    cases h with
    | here _ h => exact .inl (Option.some.inj helement ▸ h)
    | element _ h => exact .inr (Option.some.inj helement ▸ h)
    | argument _ ha =>
      rw [hargs] at ha
      cases ha
  · rintro (h | h)
    · exact .here rank h
    · exact .element rank h

theorem hasStaleArray_named_iff {t : TypeRef} (helement : t.element = none) :
    HasStaleArray ps as t ↔ argumentFor? ps as t = none ∧ ∃ a ∈ t.args, HasStaleArray ps as a := by
  constructor
  · intro h
    cases h with
    | here | element => cases helement
    | argument hkept ha h => exact ⟨hkept, _, ha, h⟩
  · rintro ⟨hkept, a, ha, h⟩
    exact .argument hkept ha h

/-- What closing a type does to its parts, the shortcut left aside. -/
theorem substitute_eq_getD (t : TypeRef) :
    t.substitute ps as = (argumentFor? ps as t).getD (t.mapParts (substitute ps as)) := by
  rw [substitute_eq_replaced, replaced_eq, argumentFor?_eq_lookup]
  exact congrArg (fun f => Option.getD _ (t.mapParts f)) (funext fun u => (substitute_eq_replaced u).symm)

theorem remade_named {t : TypeRef} (helement : t.element = none) :
    t.remade ps as = (argumentFor? ps as t).getD (t.mapParts (remade ps as)) := by
  obtain ⟨k, space, name, declaring, args, element, rank, anonymous, closure⟩ := t
  cases helement
  rw [remade, remadeAll_eq]
  rfl

/-- A type that is no parameter keeps its name and its namespace. -/
theorem name_substitute {t : TypeRef} (h : argumentFor? ps as t = none) :
    (t.substitute ps as).name = t.name ∧ (t.substitute ps as).nameSpace = t.nameSpace := by
  rw [substitute_eq_getD, h]
  exact ⟨rfl, rfl⟩

section Parameters

variable (hps : ∀ p ∈ ps, p.kind = .genericParameter)

include hps

/-- No array is a parameter. -/
theorem argumentFor?_arrayOfRank (as : List TypeRef) (e : TypeRef) (rank : Nat) :
    argumentFor? ps as (arrayOfRank e rank) = none := by
  rw [argumentFor?_eq_lookup]
  exact lookup_eq_none fun hmem => nomatch hps _ hmem

/-- A closed array has its element type closed, and keeps its name. -/
theorem substitute_arrayOfRank (as : List TypeRef) (e : TypeRef) (rank : Nat) :
    (arrayOfRank e rank).substitute ps as =
      { arrayOfRank e rank with element := some (e.substitute ps as) } := by
  rw [substitute_eq_getD, argumentFor?_arrayOfRank hps]
  rfl

theorem remade_arrayOfRank (as : List TypeRef) (e : TypeRef) (rank : Nat) :
    (arrayOfRank e rank).remade ps as = arrayOfRank (e.remade ps as) rank := by
  have hrank : max (max rank 1) 1 = max rank 1 := by omega
  have hnone := argumentFor?_arrayOfRank hps as e rank
  unfold arrayOfRank at hnone ⊢
  rw [remade, hnone, Option.getD_none, arrayOfRank, hrank]

/-- **Closing an array is making the array of the closed elements** unless these get another name. -/
theorem substitute_arrayOfRank_iff (as : List TypeRef) (e : TypeRef) (rank : Nat) :
    (arrayOfRank e rank).substitute ps as = arrayOfRank (e.substitute ps as) rank ↔ ¬IsRenamed ps as e := by
  have hnames : (arrayOfRank e rank).substitute ps as = arrayOfRank (e.substitute ps as) rank ↔
      (e.substitute ps as).name = e.name ∧ (e.substitute ps as).nameSpace = e.nameSpace := by
    rw [substitute_arrayOfRank hps, arrayOfRank, arrayOfRank, TypeRef.mk.injEq]
    simp [eq_comm, and_comm]
  rw [hnames]
  unfold IsRenamed
  cases hargument : argumentFor? ps as e with
  | none => simp [name_substitute hargument]
  | some a => simp [substitute_eq_getD, hargument]

/-- **Closing a type is putting it together again from closed parts** exactly if no array in it is left
with the name of a parameter. -/
theorem substitute_eq_remade_iff {t : TypeRef} (ht : t.IsMade) :
    t.substitute ps as = t.remade ps as ↔ ¬HasStaleArray ps as t := by
  induction ht with
  | @named t helement hargs ih =>
    rw [substitute_eq_getD, remade_named helement, hasStaleArray_named_iff helement]
    cases hargument : argumentFor? ps as t with
    | some a => simp
    | none =>
      have hparts : t.mapParts (substitute ps as) = t.mapParts (remade ps as) ↔
          ∀ a ∈ t.args, a.substitute ps as = a.remade ps as := by
        rw [mapParts, mapParts, TypeRef.mk.injEq, helement, ← List.map_inj_left]
        simp
      rw [Option.getD_none, Option.getD_none, hparts]
      simp only [true_and, not_exists, not_and]
      exact forall₂_congr ih
  | @array e rank he ih =>
    rw [remade_arrayOfRank hps, hasStaleArray_arrayOfRank_iff, not_or, ← ih,
      ← substitute_arrayOfRank_iff hps as e rank]
    constructor
    · intro h
      have helement : e.substitute ps as = e.remade ps as := by
        rw [substitute_arrayOfRank hps] at h
        exact Option.some.inj (congrArg TypeRef.element h)
      exact ⟨helement ▸ h, helement⟩
    · rintro ⟨h, helement⟩
      rw [h, helement]

end Parameters

end TreeScribe.TypeRef

/-! ### Methods of interfaces -/

namespace TreeScribe

/-- The types of a method that a signature is compared with. -/
def MethodInfo.signatureTypes (m : MethodInfo) : List TypeRef := m.returnType :: m.parameters.map (·.ty)

namespace Interface

/-- The method of an interface with one method is found for its signature. -/
theorem find?_singleton_iff {ty : TypeRef} {m : MethodInfo} {parameters : List TypeRef} {returns : TypeRef} :
    find? [⟨ty, [m]⟩] parameters returns = .ok (some (0, m)) ↔ hasSignature m parameters returns = true := by
  unfold find? allMethods
  cases hsignature : hasSignature m parameters returns with
  | true => simp [hsignature, pure, Except.pure]
  | false => simp [hsignature, pure, Except.pure]

/-- A closed signature is the signature of closed parts exactly if no array in it is left with the name of
a parameter. -/
theorem hasSignature_remade_iff {m : MethodInfo} (hps : ∀ p ∈ m.genericParameters, p.kind = .genericParameter)
    (hmade : ∀ t ∈ m.signatureTypes, t.IsMade) :
    hasSignature m (m.parameters.map fun p => p.ty.remade m.genericParameters m.genericArgs)
        (m.returnType.remade m.genericParameters m.genericArgs) = true ↔
      ∀ t ∈ m.signatureTypes, ¬t.HasStaleArray m.genericParameters m.genericArgs := by
  unfold MethodInfo.signatureTypes at hmade ⊢
  obtain ⟨hreturns, hparameters⟩ := List.forall_mem_cons.mp hmade
  rw [hasSignature, Bool.and_eq_true, decide_eq_true_iff, decide_eq_true_iff, List.forall_mem_cons,
    List.forall_mem_map]
  refine and_congr (TypeRef.substitute_eq_remade_iff hps hreturns) ?_
  refine List.map_inj_left.trans (forall₂_congr fun p hp => ?_)
  exact TypeRef.substitute_eq_remade_iff hps (List.forall_mem_map.mp hparameters p hp)

end Interface

namespace TypeRef

variable {ps as : List TypeRef}

/-- **Closing an array is making the array of the closed elements** unless the elements are a parameter
whose argument has another name or namespace. So the method of an interface is found for the signature
that is made of closed parts exactly if there is no such array anywhere in its own. -/
theorem closed_arrays (hps : ∀ p ∈ ps, p.kind = .genericParameter) :
    (∀ e rank, (arrayOfRank e rank).substitute ps as = arrayOfRank (e.substitute ps as) rank ↔
      ¬IsRenamed ps as e) ∧
    ∀ (ty : TypeRef) (m : MethodInfo), m.genericParameters = ps → m.genericArgs = as →
      (∀ t ∈ m.signatureTypes, t.IsMade) →
      (Interface.find? [⟨ty, [m]⟩] (m.parameters.map fun p => p.ty.remade ps as) (m.returnType.remade ps as) =
        .ok (some (0, m)) ↔ ∀ t ∈ m.signatureTypes, ¬HasStaleArray ps as t) := by
  refine ⟨substitute_arrayOfRank_iff hps as, ?_⟩
  rintro ty m rfl rfl hmade
  exact Interface.find?_singleton_iff.trans (Interface.hasSignature_remade_iff hps hmade)

/-- An array of the parameter itself is not found again, one of lists of it is. -/
theorem closed_arrays_openElement :
    let t := parameter "T"
    let lists := arrayOf ((named .classType "System.Collections.Generic" "List`1").withArgs [t])
    let source := named .interface "Demo" "ISource"
    let get (returns : TypeRef) : MethodInfo :=
      { name := "Get", declaring := source, returnType := returns, genericParameters := [t], genericArgs := [int] }
    (arrayOf t).substitute [t] [int] ≠ arrayOf (t.substitute [t] [int]) ∧
      Interface.find? [⟨source, [get (arrayOf t)]⟩] [] (arrayOf int) ≠ .ok (some (0, get (arrayOf t))) ∧
      Interface.find? [⟨source, [get lists]⟩] [] (lists.remade [t] [int]) = .ok (some (0, get lists)) := by
  intro t lists source get
  obtain ⟨hlaw, hfound⟩ := @closed_arrays [t] [int] (by simp [t, parameter])
  have hrenamed : IsRenamed [t] [int] t := ⟨int, by decide, by decide⟩
  have hmade : (arrayOf t).IsMade := .array 1 (.named rfl (List.forall_mem_nil _))
  have hargument : ∀ a ∈ [t], a.IsMade := List.forall_mem_singleton.mpr (.named rfl (List.forall_mem_nil _))
  refine ⟨fun h => (hlaw t 1).mp h hrenamed, fun h => ?_, ?_⟩
  · exact (hfound source (get (arrayOf t)) rfl rfl (List.forall_mem_singleton.mpr hmade)).mp h _
      (List.mem_singleton_self _) (.here 1 hrenamed)
  · refine (hfound source (get lists) rfl rfl (List.forall_mem_singleton.mpr (.array 1 (.named rfl hargument)))).mpr ?_
    refine List.forall_mem_singleton.mpr fun hstale => ?_
    rcases hasStaleArray_arrayOfRank_iff.mp hstale with ⟨a, ha, -⟩ | hstale
    · cases ha
    · -- the elements are lists, whose one argument is the parameter
      obtain ⟨-, a, ha, hstale⟩ := (hasStaleArray_named_iff rfl).mp hstale
      obtain rfl := List.mem_singleton.mp ha
      obtain ⟨hkept, -⟩ := (hasStaleArray_named_iff rfl).mp hstale
      cases hkept

end TypeRef
end TreeScribe
