import Mathlib.Data.List.Sort
import TreeScribe.Proofs.TypeRef.Substitution
import TreeScribe.TypeRef.Namespaces

/-! Which namespaces are imported, and in which order.

The order of `using` lines is a strict total order on strings, so that there is one sorted list only of a
given set of namespaces, and sorting gives this list (`pairwise_sortNamespaces`, `mem_sortNamespaces`). A type
needs the namespaces of the types that its name is made of (`TypeRef.Needs`). What a set lists after any
additions is therefore decided by what was added, in whatever order and however often
(`NamespaceSet.sorted_ofAdditions`). -/
namespace TreeScribe

/-! ### The order of `using` lines -/

/-- `System` itself, or a namespace under it. -/
def InSystem (space : String) : Prop :=
  space = TypeRef.system ∨ ∃ rest : String, space = TypeRef.system ++ "." ++ rest

/-- `System` and what lies under it comes before everything else; within a group the strings decide. -/
def UsingBefore (a b : String) : Prop :=
  InSystem a ∧ ¬InSystem b ∨ (InSystem a ↔ InSystem b) ∧ a < b

theorem isSystemNamespace_iff {space : String} : isSystemNamespace space = true ↔ InSystem space := by
  have hunder : (TypeRef.system ++ ".").toList.isPrefixOf space.toList = true ↔
      ∃ rest : String, space = TypeRef.system ++ "." ++ rest := by
    rw [List.isPrefixOf_iff_prefix]
    constructor
    · rintro ⟨rest, hrest⟩
      refine ⟨String.ofList rest, String.toList_injective ?_⟩
      rw [String.toList_append, String.toList_ofList, hrest]
    · rintro ⟨rest, rfl⟩
      exact ⟨rest.toList, String.toList_append.symm⟩
  rw [isSystemNamespace, Bool.or_eq_true, beq_iff_eq, hunder, InSystem]

instance : DecidablePred InSystem := fun _ => decidable_of_iff _ isSystemNamespace_iff

instance : DecidableRel UsingBefore := fun a b =>
  inferInstanceAs (Decidable (InSystem a ∧ ¬InSystem b ∨ (InSystem a ↔ InSystem b) ∧ a < b))

namespace UsingBefore

variable {a b c : String}

theorem irrefl (a : String) : ¬UsingBefore a a := by
  rintro (⟨h, hn⟩ | ⟨-, h⟩)
  · exact hn h
  · exact String.lt_irrefl a h

theorem trans (hab : UsingBefore a b) (hbc : UsingBefore b c) : UsingBefore a c := by
  obtain ⟨ha, hb⟩ | ⟨hsame, hlt⟩ := hab <;> obtain ⟨hb', hc⟩ | ⟨hsame', hlt'⟩ := hbc
  · exact absurd hb' hb
  · exact .inl ⟨ha, fun hc => hb (hsame'.mpr hc)⟩
  · exact .inl ⟨hsame.mpr hb', hc⟩
  · exact .inr ⟨hsame.trans hsame', String.lt_trans hlt hlt'⟩

theorem trichotomy (a b : String) : UsingBefore a b ∨ a = b ∨ UsingBefore b a := by
  have hstrings : a < b ∨ a = b ∨ b < a := by
    by_cases hab : a < b
    · exact .inl hab
    by_cases hba : b < a
    · exact .inr (.inr hba)
    · exact .inr (.inl (String.le_antisymm (String.not_lt.mp hba) (String.not_lt.mp hab)))
  by_cases ha : InSystem a <;> by_cases hb : InSystem b
  · exact hstrings.imp (fun h => .inr ⟨iff_of_true ha hb, h⟩) (.imp_right fun h => .inr ⟨iff_of_true hb ha, h⟩)
  · exact .inl (.inl ⟨ha, hb⟩)
  · exact .inr (.inr (.inl ⟨hb, ha⟩))
  · exact hstrings.imp (fun h => .inr ⟨iff_of_false ha hb, h⟩)
      (.imp_right fun h => .inr ⟨iff_of_false hb ha, h⟩)

instance : IsStrictTotalOrder String UsingBefore where
  trichotomous a b hab hba := by
    obtain h | h | h := trichotomy a b
    · exact absurd h hab
    · exact h
    · exact absurd h hba
  irrefl := irrefl
  trans _ _ _ := trans

end UsingBefore

/-- Sorting compares by this order. -/
theorem namespaceLE_iff {a b : String} : namespaceLE a b = true ↔ a = b ∨ UsingBefore a b := by
  have hstrings : a ≤ b ↔ a = b ∨ a < b := by
    constructor
    · intro hle
      by_cases hlt : a < b
      · exact .inr hlt
      · exact .inl (String.le_antisymm hle (String.not_lt.mp hlt))
    · rintro (rfl | hlt)
      · exact String.le_refl a
      · exact String.not_lt.mp fun hba => String.lt_irrefl a (String.lt_trans hlt hba)
  by_cases ha : InSystem a <;> by_cases hb : InSystem b
  · have hle : namespaceLE a b = decide (a ≤ b) := by
      rw [namespaceLE, isSystemNamespace_iff.mpr ha, isSystemNamespace_iff.mpr hb]
    rw [hle, decide_eq_true_iff, hstrings]
    simp [UsingBefore, ha, hb]
  · have hle : namespaceLE a b = true := by
      rw [namespaceLE, isSystemNamespace_iff.mpr ha,
        Bool.eq_false_iff.mpr (mt isSystemNamespace_iff.mp hb)]
    exact iff_of_true hle (.inr (.inl ⟨ha, hb⟩))
  · have hle : namespaceLE a b = false := by
      rw [namespaceLE, isSystemNamespace_iff.mpr hb,
        Bool.eq_false_iff.mpr (mt isSystemNamespace_iff.mp ha)]
    rw [hle]
    refine iff_of_false Bool.false_ne_true ?_
    rintro (rfl | hbefore)
    · exact ha hb
    · simp [UsingBefore, ha, hb] at hbefore
  · have hle : namespaceLE a b = decide (a ≤ b) := by
      rw [namespaceLE, Bool.eq_false_iff.mpr (mt isSystemNamespace_iff.mp ha),
        Bool.eq_false_iff.mpr (mt isSystemNamespace_iff.mp hb)]
    rw [hle, decide_eq_true_iff, hstrings]
    simp [UsingBefore, ha, hb]

/-! ### Sorting -/

theorem mem_eraseReps_loop {α : Type} [BEq α] [LawfulBEq α] {x a : α} {as acc : List α} :
    x ∈ List.eraseRepsBy.loop (· == ·) a as acc ↔ x = a ∨ x ∈ as ∨ x ∈ acc := by
  induction as generalizing a acc with
  | nil =>
    rw [List.eraseRepsBy.loop, List.mem_reverse, List.mem_cons]
    simp
  | cons a' as ih =>
    rw [List.eraseRepsBy.loop, List.mem_cons]
    split
    next heq =>
      obtain rfl := eq_of_beq heq
      rw [ih]
      tauto
    · rw [ih, List.mem_cons]
      tauto

/-- Sorting loses no namespace and adds none. -/
theorem mem_sortNamespaces {space : String} {spaces : List String} :
    space ∈ sortNamespaces spaces ↔ space ∈ spaces := by
  have hsorted : space ∈ spaces.mergeSort namespaceLE ↔ space ∈ spaces := List.mem_mergeSort
  unfold sortNamespaces List.eraseReps List.eraseRepsBy
  cases hspaces : spaces.mergeSort namespaceLE with
  | nil => rwa [hspaces] at hsorted
  | cons a as =>
    rw [hspaces, List.mem_cons] at hsorted
    rw [mem_eraseReps_loop, ← hsorted]
    simp

/-- Equal neighbours are all that is repeated in a sorted list. What has been kept so far stands in `acc`,
the last first. -/
theorem pairwise_eraseReps_loop {α : Type} [BEq α] [LawfulBEq α] {r : α → α → Prop} [IsTrans α r]
    {a : α} {as acc : List α} (hsorted : (a :: as).Pairwise fun x y => x = y ∨ r x y)
    (hacc : acc.Pairwise fun x y => r y x) (hbefore : ∀ x ∈ acc, ∀ y ∈ a :: as, r x y) :
    (List.eraseRepsBy.loop (· == ·) a as acc).Pairwise r := by
  induction as generalizing a acc with
  | nil =>
    rw [List.eraseRepsBy.loop, List.pairwise_reverse, List.pairwise_cons]
    exact ⟨fun x hx => hbefore x hx a (List.mem_singleton_self a), hacc⟩
  | cons a' as ih =>
    obtain ⟨hfirst, hrest⟩ := List.pairwise_cons.mp hsorted
    rw [List.eraseRepsBy.loop]
    split
    next heq =>
      obtain rfl := eq_of_beq heq
      exact ih hrest hacc fun x hx y hy => hbefore x hx y (List.mem_cons_of_mem _ hy)
    next hne =>
      have haa' : r a a' :=
        (hfirst a' (List.mem_cons_self ..)).resolve_left (beq_eq_false_iff_ne.mp hne)
      have hafter : ∀ y ∈ a' :: as, r a y := by
        intro y hy
        obtain rfl | hy := List.mem_cons.mp hy
        · exact haa'
        · obtain rfl | hlt := (List.pairwise_cons.mp hrest).1 y hy
          · exact haa'
          · exact Trans.trans haa' hlt
      refine ih hrest (List.pairwise_cons.mpr ⟨?_, hacc⟩) ?_
      · exact fun x hx => hbefore x hx a (List.mem_cons_self ..)
      · exact List.forall_mem_cons.mpr
          ⟨hafter, fun x hx y hy => hbefore x hx y (List.mem_cons_of_mem _ hy)⟩

/-- **Sorted namespaces increase strictly.** -/
theorem pairwise_sortNamespaces (spaces : List String) :
    (sortNamespaces spaces).Pairwise UsingBefore := by
  have hsorted : (spaces.mergeSort namespaceLE).Pairwise fun a b => a = b ∨ UsingBefore a b := by
    have hpairwise : (spaces.mergeSort namespaceLE).Pairwise fun a b => namespaceLE a b = true := by
      refine List.pairwise_mergeSort (fun a b c hab hbc => ?_) (fun a b => ?_) spaces
      · rw [namespaceLE_iff] at hab hbc ⊢
        obtain rfl | hab := hab
        · exact hbc
        · obtain rfl | hbc := hbc
          · exact .inr hab
          · exact .inr (hab.trans hbc)
      · rw [Bool.or_eq_true, namespaceLE_iff, namespaceLE_iff]
        obtain h | h | h := UsingBefore.trichotomy a b
        · exact .inl (.inr h)
        · exact .inl (.inl h)
        · exact .inr (.inr h)
    exact hpairwise.imp namespaceLE_iff.mp
  unfold sortNamespaces List.eraseReps List.eraseRepsBy
  cases hspaces : spaces.mergeSort namespaceLE with
  | nil => exact .nil
  | cons a as =>
    rw [hspaces] at hsorted
    exact pairwise_eraseReps_loop hsorted .nil nofun

/-- There is one sorted list only of the same namespaces. -/
theorem sortNamespaces_congr {spaces spaces' : List String} (h : ∀ space, space ∈ spaces ↔ space ∈ spaces') :
    sortNamespaces spaces = sortNamespaces spaces' := by
  refine (pairwise_sortNamespaces spaces).eq_of_mem_iff (pairwise_sortNamespaces spaces') fun space => ?_
  rw [mem_sortNamespaces, mem_sortNamespaces, h]

/-! ### Namespaces of types -/

namespace TypeRef

/-- The type that encloses a type and is itself not enclosed; a type that is not enclosed is its own. -/
inductive Outermost : TypeRef → TypeRef → Prop
  | self {t : TypeRef} (h : t.declaring = none) : Outermost t t
  | enclosed {t outer root : TypeRef} (h : t.declaring = some outer) (hroot : Outermost outer root) :
      Outermost t root

theorem exists_chain_eq : (t : TypeRef) → ∃ root, Outermost t root ∧ t.chain.head? = some root
  | ⟨k, space, name, none, args, element, rank, anonymous, closure⟩ =>
    ⟨⟨k, space, name, none, args, element, rank, anonymous, closure⟩, .self rfl, rfl⟩
  | ⟨k, space, name, some outer, args, element, rank, anonymous, closure⟩ => by
    obtain ⟨root, hroot, hhead⟩ := exists_chain_eq outer
    refine ⟨root, .enclosed rfl hroot, ?_⟩
    rw [chain, chain.chainOption, List.head?_append, hhead, Option.some_or]

theorem Outermost.unique {t root root' : TypeRef} (h : Outermost t root) (h' : Outermost t root') :
    root = root' := by
  induction h with
  | self hnone =>
    cases h' with
    | self => rfl
    | enclosed hsome _ => rw [hnone] at hsome; cases hsome
  | enclosed hsome _ ih =>
    cases h' with
    | self hnone => rw [hsome] at hnone; cases hnone
    | enclosed hsome' hroot' =>
      obtain rfl := Option.some.inj (hsome.symm.trans hsome')
      exact ih hroot'

theorem outerNamespace?_eq_some_iff {t : TypeRef} {space : String} :
    t.outerNamespace? = some space ↔ ∃ root, Outermost t root ∧ root.nameSpace = some space := by
  obtain ⟨root, hroot, hhead⟩ := exists_chain_eq t
  rw [outerNamespace?, hhead, Option.bind_some]
  constructor
  · exact fun hspace => ⟨root, hroot, hspace⟩
  · rintro ⟨root', hroot', hspace⟩
    rwa [hroot.unique hroot']

/-- The type is written by a name of its own, and not by a keyword, as an array or a nullable type, or as a
parameter. Classes that hold captured variables are not written at all. -/
structure IsSpelledOut (t : TypeRef) : Prop where
  element : t.element = none
  isNullable : t.isNullable = false
  isParameter : t.isParameter = false
  keyword : t.keyword? = none
  isClosure : t.isClosure = false

/-- Writing the type by its short name needs a namespace. -/
inductive Needs : TypeRef → String → Prop
  /-- An array is written by its elements. -/
  | element {t e : TypeRef} {space : String} (h : t.element = some e) (he : Needs e space) : Needs t space
  | underlying {t u : TypeRef} {space : String} (h : t.element = none) (hunderlying : t.underlying? = some u)
      (hu : Needs u space) : Needs t space
  | argument {t a : TypeRef} {space : String} (h : t.IsSpelledOut) (hmem : a ∈ t.args) (ha : Needs a space) :
      Needs t space
  /-- A nested type is found through the outermost of those that enclose it. -/
  | own {t root : TypeRef} {space : String} (h : t.IsSpelledOut) (hnamed : t.isAnonymous = false)
      (hroot : Outermost t root) (hspace : root.nameSpace = some space) : Needs t space

theorem requiredNamespacesAll_eq (ts : List TypeRef) :
    requiredNamespacesAll ts = ts.flatMap requiredNamespaces := by
  induction ts with
  | nil => rw [requiredNamespacesAll, List.flatMap_nil]
  | cons t ts ih => rw [requiredNamespacesAll, ih, List.flatMap_cons]

theorem requiredNamespaces_of_element {t e : TypeRef} (h : t.element = some e) :
    t.requiredNamespaces = e.requiredNamespaces := by
  obtain ⟨k, space, name, declaring, args, element, rank, anonymous, closure⟩ := t
  obtain rfl : element = some e := h
  rw [requiredNamespaces]

theorem requiredNamespaces_eq {t : TypeRef} (h : t.element = none) :
    t.requiredNamespaces =
      if t.isNullable then t.args.flatMap requiredNamespaces
      else if t.isParameter || t.keyword?.isSome || t.isClosure then []
      else
        t.args.flatMap requiredNamespaces ++ if t.isAnonymous then [] else t.outerNamespace?.toList := by
  obtain ⟨k, space, name, declaring, args, element, rank, anonymous, closure⟩ := t
  obtain rfl : element = none := h
  rw [requiredNamespaces, requiredNamespacesAll_eq]

theorem args_of_isNullable {t : TypeRef} (h : t.isNullable = true) :
    ∃ u, t.args = [u] ∧ t.underlying? = some u := by
  have hlength : t.args.length = 1 := by
    simp only [isNullable, Bool.and_eq_true, beq_iff_eq] at h
    exact h.2
  obtain ⟨u, hu⟩ := List.length_eq_one_iff.mp hlength
  exact ⟨u, hu, by rw [underlying?, if_pos h, hu, List.head?_cons]⟩

/-- **What a type requires is what it needs.** -/
theorem mem_requiredNamespaces_iff {space : String} (t : TypeRef) :
    space ∈ t.requiredNamespaces ↔ t.Needs space := by
  induction t using partsInduction with
  | h t helement hargs =>
    cases he : t.element with
    | some e =>
      rw [requiredNamespaces_of_element he, helement e he]
      refine ⟨.element he, fun h => ?_⟩
      cases h with
      | element he' h => rwa [Option.some.inj (he.symm.trans he')]
      | underlying hnone => cases he.symm.trans hnone
      | argument h | own h => cases he.symm.trans h.element
    | none =>
      rw [requiredNamespaces_eq he]
      by_cases hnullable : t.isNullable = true
      · obtain ⟨u, hu, hunderlying⟩ := args_of_isNullable hnullable
        rw [if_pos hnullable, hu, List.flatMap_singleton, hargs u (hu ▸ List.mem_singleton_self u)]
        refine ⟨.underlying he hunderlying, fun h => ?_⟩
        cases h with
        | element hsome => cases he.symm.trans hsome
        | underlying _ hu' h => rwa [Option.some.inj (hunderlying.symm.trans hu')]
        | argument h | own h => cases hnullable.symm.trans h.isNullable
      by_cases hunspelled : (t.isParameter || t.keyword?.isSome || t.isClosure) = true
      · rw [if_neg hnullable, if_pos hunspelled]
        refine iff_of_false List.not_mem_nil fun h => ?_
        have hspelled (h : t.IsSpelledOut) : False := by
          rw [h.isParameter, h.keyword, h.isClosure] at hunspelled
          cases hunspelled
        cases h with
        | element hsome => cases he.symm.trans hsome
        | underlying _ hu => rw [underlying?, if_neg hnullable] at hu; cases hu
        | argument h | own h => exact hspelled h
      · have hspelled : t.IsSpelledOut := by
          simp only [Bool.or_eq_true, not_or, Bool.not_eq_true, Option.isSome_eq_false_iff,
            Option.isNone_iff_eq_none] at hunspelled
          exact ⟨he, Bool.eq_false_iff.mpr hnullable, hunspelled.1.1, hunspelled.1.2, hunspelled.2⟩
        rw [if_neg hnullable, if_neg hunspelled, List.mem_append, List.mem_flatMap]
        constructor
        · rintro (⟨a, ha, h⟩ | h)
          · exact .argument hspelled ha ((hargs a ha).mp h)
          · split at h
            · cases h
            next hnamed =>
              obtain ⟨root, hroot, hspace⟩ := outerNamespace?_eq_some_iff.mp (Option.mem_toList.mp h)
              exact .own hspelled (Bool.eq_false_iff.mpr hnamed) hroot hspace
        · intro h
          cases h with
          | element hsome => cases he.symm.trans hsome
          | underlying _ hu => rw [underlying?, if_neg hnullable] at hu; cases hu
          | argument _ ha h => exact .inl ⟨_, ha, (hargs _ ha).mpr h⟩
          | own _ hnamed hroot hspace =>
            refine .inr ?_
            rw [hnamed]
            exact Option.mem_toList.mpr (outerNamespace?_eq_some_iff.mpr ⟨_, hroot, hspace⟩)

end TypeRef

/-! ### Sets after any additions -/

namespace NamespaceSet

theorem subset_add (set : NamespaceSet) (space : String) : set.spaces ⊆ (set.add space).spaces := by
  unfold add
  split
  · exact List.Subset.refl _
  · exact List.subset_append_left ..

theorem mem_add (set : NamespaceSet) {space : String} (h : space.isEmpty = false) :
    space ∈ (set.add space).spaces := by
  unfold add
  split
  next hmem =>
    rw [h, Bool.false_or] at hmem
    exact List.contains_iff_mem.mp hmem
  · exact List.mem_append_right _ (List.mem_singleton_self _)

theorem subset_addAll (set : NamespaceSet) (spaces : List String) :
    set.spaces ⊆ (set.addAll spaces).spaces := by
  induction spaces generalizing set with
  | nil => exact List.Subset.refl _
  | cons space spaces ih => exact List.Subset.trans (set.subset_add space) (ih (set.add space))

theorem mem_addAll (set : NamespaceSet) {spaces : List String} {space : String} (hmem : space ∈ spaces)
    (h : space.isEmpty = false) : space ∈ (set.addAll spaces).spaces := by
  induction spaces generalizing set with
  | nil => cases hmem
  | cons first spaces ih =>
    rcases List.mem_cons.mp hmem with rfl | hmem
    · exact subset_addAll _ spaces (set.mem_add h)
    · exact ih (set.add first) hmem

theorem addAll_subset (set : NamespaceSet) (spaces : List String) {space : String}
    (h : space ∈ (set.addAll spaces).spaces) :
    space ∈ set.spaces ∨ space ∈ spaces ∧ space.isEmpty = false := by
  induction spaces generalizing set with
  | nil => exact .inl h
  | cons first spaces ih =>
    rcases ih (set.add first) h with hset | ⟨hmem, hnamed⟩
    · unfold add at hset
      split at hset
      · exact .inl hset
      next hnew =>
        rcases List.mem_append.mp hset with hset | hset
        · exact .inl hset
        · obtain rfl := List.mem_singleton.mp hset
          simp only [Bool.or_eq_true, not_or, Bool.not_eq_true] at hnew
          exact .inr ⟨List.mem_cons_self .., hnew.1⟩
    · exact .inr ⟨List.mem_cons_of_mem _ hmem, hnamed⟩

theorem mem_addAll_iff {set : NamespaceSet} {spaces : List String} {space : String} :
    space ∈ (set.addAll spaces).spaces ↔ space ∈ set.spaces ∨ space ≠ "" ∧ space ∈ spaces := by
  have hnamed : space.isEmpty = false ↔ space ≠ "" := by
    rw [Bool.eq_false_iff, ne_eq, String.isEmpty_iff]
  constructor
  · intro h
    exact (addAll_subset set spaces h).imp_right fun ⟨hmem, h⟩ => ⟨hnamed.mp h, hmem⟩
  · rintro (h | ⟨h, hmem⟩)
    · exact subset_addAll set spaces h
    · exact mem_addAll set hmem (hnamed.mpr h)

/-- What can be added to a set. -/
inductive Addition where
  | space (name : String)
  | type (t : TypeRef)

/-- The addition asks for a namespace. -/
def Addition.Asks : Addition → String → Prop
  | .space name, s => s = name
  | .type t, s => t.Needs s

def perform (set : NamespaceSet) : Addition → NamespaceSet
  | .space name => set.add name
  | .type t => set.addType t

/-- A new set after additions, one after the other. -/
def ofAdditions (additions : List Addition) : NamespaceSet := additions.foldl perform {}

theorem mem_perform_iff {set : NamespaceSet} {a : Addition} {space : String} :
    space ∈ (set.perform a).spaces ↔ space ∈ set.spaces ∨ space ≠ "" ∧ a.Asks space := by
  cases a with
  | space name =>
    have hone : set.perform (.space name) = set.addAll [name] := rfl
    rw [hone, mem_addAll_iff, List.mem_singleton]
    rfl
  | type t =>
    have hall : set.perform (.type t) = set.addAll t.requiredNamespaces := rfl
    rw [hall, mem_addAll_iff, t.mem_requiredNamespaces_iff]
    rfl

theorem mem_performAll_iff {set : NamespaceSet} {additions : List Addition} {space : String} :
    space ∈ (additions.foldl perform set).spaces ↔
      space ∈ set.spaces ∨ space ≠ "" ∧ ∃ a ∈ additions, a.Asks space := by
  induction additions generalizing set with
  | nil => simp
  | cons a additions ih =>
    rw [List.foldl_cons, ih, mem_perform_iff, List.exists_mem_cons_iff, and_or_left, or_assoc]

theorem mem_ofAdditions_iff {additions : List Addition} {space : String} :
    space ∈ (ofAdditions additions).spaces ↔ space ≠ "" ∧ ∃ a ∈ additions, a.Asks space := by
  rw [ofAdditions, mem_performAll_iff]
  exact or_iff_right List.not_mem_nil

/-- **What a set lists is decided by what was added**, in whatever order and however often: the namespaces
with a name that some addition asks for, strictly increasing. Sorting any names with repetitions lists these
names, strictly increasing. -/
theorem sorted_ofAdditions (additions : List Addition) :
    (ofAdditions additions).sorted.Pairwise UsingBefore ∧
    (∀ space, space ∈ (ofAdditions additions).sorted ↔ space ≠ "" ∧ ∃ a ∈ additions, a.Asks space) ∧
    (∀ others : List Addition, (∀ a, a ∈ others ↔ a ∈ additions) →
      (ofAdditions others).sorted = (ofAdditions additions).sorted) ∧
    ∀ spaces : List String, (sortNamespaces spaces).Pairwise UsingBefore ∧
      ∀ space, space ∈ sortNamespaces spaces ↔ space ∈ spaces := by
  refine ⟨pairwise_sortNamespaces _, fun space => ?_, fun others hsame => ?_, fun spaces => ?_⟩
  · rw [sorted, mem_sortNamespaces, mem_ofAdditions_iff]
  · refine sortNamespaces_congr fun space => ?_
    rw [mem_ofAdditions_iff, mem_ofAdditions_iff]
    simp only [hsame]
  · exact ⟨pairwise_sortNamespaces spaces, fun _ => mem_sortNamespaces⟩

/-- An array of lists of nested types, a name next to `System`, one under it, and the global namespace. -/
theorem sorted_ofAdditions_repeated :
    let order := (TypeRef.named .classType "" "Order").nestedIn (.named .classType "Acme.Model" "Shop")
    let list := (TypeRef.named .classType "System.Collections.Generic" "List`1").withArgs [order]
    let additions : List Addition := [.type (.arrayOf list), .space "Systematic", .space "", .space "System.IO"]
    (∀ a, a ∈ additions.reverse ++ additions ↔ a ∈ additions) ∧
      (ofAdditions (additions.reverse ++ additions)).sorted = (ofAdditions additions).sorted ∧
      (ofAdditions additions).sorted =
        ["System.Collections.Generic", "System.IO", "Acme.Model", "Systematic"] := by
  intro order list additions
  have hsame : ∀ a, a ∈ additions.reverse ++ additions ↔ a ∈ additions := by simp
  have hincreasing : ["System.Collections.Generic", "System.IO", "Acme.Model", "Systematic"].Pairwise
      UsingBefore := by decide +kernel
  have hspaces : (ofAdditions additions).spaces.Perm
      ["System.Collections.Generic", "System.IO", "Acme.Model", "Systematic"] := by decide +kernel
  refine ⟨hsame, (sorted_ofAdditions additions).2.2.1 _ hsame, ?_⟩
  refine (pairwise_sortNamespaces _).eq_of_mem_iff hincreasing fun space => ?_
  rw [mem_sortNamespaces, hspaces.mem_iff]

end NamespaceSet
end TreeScribe
