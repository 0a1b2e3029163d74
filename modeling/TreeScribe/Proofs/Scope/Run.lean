import TreeScribe.Scope.Basic

/-! Runs of operations on a scope tree.

A run starts from the tree that holds the root alone and names only scopes that exist. Nothing
in a run changes the kind or the parent of a scope: `links`, the list of both, only gets longer
(`links_step`). So the way up from a scope, once the scope exists, stays what it is
(`path_of_growth`), and so does all that is read off it. -/
namespace TreeScribe

/-- What a scope is and where it hangs, which never changes. -/
def Scope.link (s : Scope) : ScopeKind × Option Nat := (s.kind, s.parent)

namespace ScopeTree

/-! ### Links -/

def links (t : ScopeTree) : List (ScopeKind × Option Nat) := t.scopes.map Scope.link

theorem length_links (t : ScopeTree) : t.links.length = t.scopes.length := by
  simp [links]

theorem parent?_eq (t : ScopeTree) (i : Nat) : t.parent? i = t.links[i]?.bind (·.2) := by
  simp only [parent?, scope?, links, List.getElem?_map]
  cases t.scopes[i]? <;> rfl

theorem isExtracted_eq (t : ScopeTree) (i : Nat) :
    t.isExtracted i = t.links[i]?.any (·.1 == .extracted) := by
  simp only [isExtracted, scope?, links, List.getElem?_map]
  cases t.scopes[i]? <;> rfl

theorem links_modifyScope (t : ScopeTree) (i : Nat) (f : Scope → Scope)
    (h : ∀ s, (f s).link = s.link) : (t.modifyScope i f).links = t.links := by
  apply List.ext_getElem?
  intro j
  simp only [links, modifyScope, List.getElem?_map, List.getElem?_modify]
  cases t.scopes[j]? with
  | none => rfl
  | some s =>
    by_cases hij : i = j
    · simp [hij, h]
    · simp [hij]

theorem links_push (t : ScopeTree) (parent : Nat) (kind : ScopeKind) :
    (t.push parent kind).2.links = t.links ++ [(kind, some parent)] := by
  have h := links_modifyScope t parent
    (fun s => { s with children := s.children ++ [t.scopes.length] }) fun _ => rfl
  simp only [links] at h ⊢
  simp only [push, List.map_append, h]
  rfl

theorem links_declare (t : ScopeTree) (i : Nat) (key : VariableKey) (d : Declaration) :
    (t.declare i key d).2.links = t.links := by
  unfold declare
  split
  · rfl
  · exact links_modifyScope t i _ fun _ => rfl

theorem links_resolve (t : ScopeTree) (start : Nat) (key : VariableKey) :
    (t.resolve start key).2.links = t.links := by
  unfold resolve
  split
  · rfl
  · exact links_declare t _ key _

theorem link_noteEscape (s : Scope) (key : VariableKey) (isAssigned : Bool) :
    (s.noteEscape key isAssigned).link = s.link := by
  unfold Scope.noteEscape
  split <;> rfl

theorem links_noteEscapes (t : ScopeTree) (key : VariableKey) (isAssigned : Bool)
    (is : List Nat) : (t.noteEscapes key isAssigned is).links = t.links := by
  induction is generalizing t with
  | nil => rfl
  | cons i is ih =>
    rw [noteEscapes, ih]
    exact links_modifyScope t i _ fun s => link_noteEscape s key isAssigned

/-- An access resolves the variable, notes the escapes on the way, and changes the variable. -/
theorem access_eq (t : ScopeTree) (start : Nat) (key : VariableKey) (how : Access) :
    t.access start key how =
      let r := t.resolve start key
      let extracted := r.2.extractedUpTo start r.1
      let noted := r.2.noteEscapes key how.isWrite extracted
      (r.1, noted.modifyVariable r.1
        (how.applied start (!extracted.isEmpty) fun home => !noted.isWithin start home)) := rfl

theorem links_access (t : ScopeTree) (start : Nat) (key : VariableKey) (how : Access) :
    (t.access start key how).2.links = t.links := by
  rw [access_eq]
  dsimp only
  rw [modifyVariable, links_modifyScope, links_noteEscapes, links_resolve]
  intro s
  rfl

/-! ### The way up -/

/-- One scope is another or lies within it, by way of the parents. -/
inductive Inside (t : ScopeTree) : Nat → Nat → Prop where
  | refl (i : Nat) : Inside t i i
  | up {i p outer : Nat} : t.parent? i = some p → Inside t p outer → Inside t i outer

/-- Every parent has a smaller number. -/
def ParentsBelow (t : ScopeTree) : Prop := ∀ i p, t.parent? i = some p → p < i

theorem path_of_root {t : ScopeTree} {i : Nat} (h : t.parent? i = none) : t.path i = [i] := by
  rw [path, h]

theorem path_of_parent {t : ScopeTree} (ht : t.ParentsBelow) {i p : Nat}
    (h : t.parent? i = some p) : t.path i = i :: t.path p := by
  rw [path, h]
  simp [ht i p h]

theorem mem_path_self (t : ScopeTree) (i : Nat) : i ∈ t.path i := by
  rw [path]
  split
  · simp
  · split <;> simp

theorem mem_path_iff {t : ScopeTree} (ht : t.ParentsBelow) (i outer : Nat) :
    outer ∈ t.path i ↔ t.Inside i outer := by
  constructor
  · intro h
    induction i using Nat.strongRecOn with
    | ind i ih =>
      cases hp : t.parent? i with
      | none =>
        rw [path_of_root hp, List.mem_singleton] at h
        exact h ▸ .refl outer
      | some p =>
        rw [path_of_parent ht hp, List.mem_cons] at h
        rcases h with rfl | h
        · exact .refl _
        · exact .up hp (ih p (ht i p hp) h)
  · intro h
    induction h with
    | refl i => exact mem_path_self t i
    | up hp _ ih =>
      rw [path_of_parent ht hp]
      exact List.mem_cons_of_mem _ ih

theorem isWithin_iff {t : ScopeTree} (ht : t.ParentsBelow) (i outer : Nat) :
    t.isWithin i outer = true ↔ t.Inside i outer := by
  rw [isWithin, List.contains_iff_mem, mem_path_iff ht]

theorem Inside.le {t : ScopeTree} (ht : t.ParentsBelow) {i outer : Nat}
    (h : t.Inside i outer) : outer ≤ i := by
  induction h with
  | refl i => exact Nat.le_refl i
  | up hp _ ih => exact Nat.le_trans ih (Nat.le_of_lt (ht _ _ hp))

/-- On the way up to a scope around it, a scope passes exactly those between the two. -/
theorem mem_takeWhile_path {t : ScopeTree} (ht : t.ParentsBelow) {i outer : Nat}
    (h : t.Inside i outer) (j : Nat) :
    j ∈ (t.path i).takeWhile (· != outer) ↔ t.Inside i j ∧ t.Inside j outer ∧ j ≠ outer := by
  induction h with
  | refl outer =>
    have hnil : (t.path outer).takeWhile (· != outer) = [] := by
      rw [path]
      split
      · simp
      · split <;> simp
    rw [hnil]
    constructor
    · intro h
      cases h
    · rintro ⟨hj, hj', hne⟩
      exact absurd (Nat.le_antisymm (hj.le ht) (hj'.le ht)) hne
  | @up i p outer hp hout ih =>
    have hne : i ≠ outer := by
      have := hout.le ht
      have := ht i p hp
      omega
    rw [path_of_parent ht hp, List.takeWhile_cons_of_pos (by simpa using hne), List.mem_cons, ih]
    constructor
    · rintro (rfl | ⟨hj, hj', hjne⟩)
      · exact ⟨.refl _, .up hp hout, hne⟩
      · exact ⟨.up hp hj, hj', hjne⟩
    · rintro ⟨hj, hj', hjne⟩
      cases hj with
      | refl => exact .inl rfl
      | up hp' hj =>
        cases hp.symm.trans hp'
        exact .inr ⟨hj, hj', hjne⟩

/-! ### Growth -/

theorem parent?_of_growth {t t' : ScopeTree} (h : t.links <+: t'.links) {i : Nat}
    (hi : i < t.scopes.length) : t'.parent? i = t.parent? i := by
  rw [parent?_eq, parent?_eq, List.prefix_iff_getElem?.mp h i (by rwa [length_links]),
    List.getElem?_eq_getElem (by rwa [length_links])]

theorem isExtracted_of_growth {t t' : ScopeTree} (h : t.links <+: t'.links) {i : Nat}
    (hi : i < t.scopes.length) : t'.isExtracted i = t.isExtracted i := by
  rw [isExtracted_eq, isExtracted_eq, List.prefix_iff_getElem?.mp h i (by rwa [length_links]),
    List.getElem?_eq_getElem (by rwa [length_links])]

theorem path_of_growth {t t' : ScopeTree} (h : t.links <+: t'.links) {i : Nat}
    (hi : i < t.scopes.length) : t'.path i = t.path i := by
  induction i using Nat.strongRecOn with
  | ind i ih =>
    rw [path, path, parent?_of_growth h hi]
    split
    · rfl
    · rename_i p _
      split
      · rename_i hp
        rw [ih p hp (by omega)]
      · rfl

theorem path_lt {t : ScopeTree} {i : Nat} (hi : i < t.scopes.length) :
    ∀ j ∈ t.path i, j < t.scopes.length := by
  induction i using Nat.strongRecOn with
  | ind i ih =>
    rw [path]
    split
    · simpa using hi
    · rename_i p _
      split
      · rename_i hp
        intro j hj
        rcases List.mem_cons.mp hj with rfl | hj
        · exact hi
        · exact ih p hp (by omega) j hj
      · simpa using hi

theorem exists_scope?_of_growth {t t' : ScopeTree} (h : t.links <+: t'.links) {i : Nat} {old : Scope}
    (hold : t.scope? i = some old) :
    ∃ new, t'.scope? i = some new ∧ new.kind = old.kind ∧ new.parent = old.parent := by
  have hlink : t.links[i]? = some old.link := (List.getElem?_map ..).trans (congrArg _ hold)
  obtain ⟨hlt, heq⟩ := List.getElem?_eq_some_iff.mp hlink
  have hgrown : (t'.scope? i).map Scope.link = some old.link := by
    rw [← heq, ← List.prefix_iff_getElem?.mp h i hlt]
    exact (List.getElem?_map ..).symm
  obtain ⟨new, hnew, hsame⟩ := Option.map_eq_some_iff.mp hgrown
  exact ⟨new, hnew, congrArg Prod.fst hsame, congrArg Prod.snd hsame⟩

theorem isWithin_of_growth {t t' : ScopeTree} (h : t.links <+: t'.links) {i : Nat}
    (hi : i < t.scopes.length) (outer : Nat) : t'.isWithin i outer = t.isWithin i outer := by
  rw [isWithin, isWithin, path_of_growth h hi]

theorem extractedUpTo_of_growth {t t' : ScopeTree} (h : t.links <+: t'.links) {i : Nat}
    (hi : i < t.scopes.length) (slot : Slot) :
    t'.extractedUpTo i slot = t.extractedUpTo i slot := by
  rw [extractedUpTo, extractedUpTo, path_of_growth h hi]
  apply List.filter_congr
  intro j hj
  exact isExtracted_of_growth h (path_lt hi j (List.takeWhile_subset _ hj))

theorem length_le_of_growth {t t' : ScopeTree} (h : t.links <+: t'.links) :
    t.scopes.length ≤ t'.scopes.length := by
  rw [← length_links, ← length_links]
  exact h.length_le

/-- The shape that every tree has: the root alone has no parent, and parents have smaller
numbers. -/
structure Rooted (t : ScopeTree) : Prop where
  nonempty : 0 < t.scopes.length
  parentsBelow : t.ParentsBelow
  onlyRoot : ∀ i, i < t.scopes.length → t.parent? i = none → i = rootScope

/-- Every scope lies within the root. -/
theorem Rooted.inside_root {t : ScopeTree} (ht : t.Rooted) {i : Nat}
    (hi : i < t.scopes.length) : t.Inside i rootScope := by
  induction i using Nat.strongRecOn with
  | ind i ih =>
    cases hp : t.parent? i with
    | none => exact ht.onlyRoot i hi hp ▸ .refl i
    | some p =>
      have hlt := ht.parentsBelow i p hp
      exact .up hp (ih p hlt (by omega))

theorem Rooted.of_links {t t' : ScopeTree} (ht : t.Rooted) (h : t'.links = t.links) :
    t'.Rooted := by
  have hlength : t'.scopes.length = t.scopes.length := by
    rw [← length_links, ← length_links, h]
  have hparent : ∀ i, t'.parent? i = t.parent? i := by
    intro i
    rw [parent?_eq, parent?_eq, h]
  refine ⟨by rw [hlength]; exact ht.nonempty, ?_, ?_⟩
  · intro i p hp
    exact ht.parentsBelow i p (hparent i ▸ hp)
  · intro i hi hp
    exact ht.onlyRoot i (hlength ▸ hi) (hparent i ▸ hp)

theorem parent?_push (t : ScopeTree) (parent : Nat) (kind : ScopeKind) (i : Nat) :
    (t.push parent kind).2.parent? i =
      if i < t.scopes.length then t.parent? i
      else if i = t.scopes.length then some parent else none := by
  rw [parent?_eq, links_push, List.getElem?_append, length_links]
  split
  · rw [← parent?_eq]
  · split
    · rename_i hi
      simp [hi]
    · rw [List.getElem?_eq_none (by rw [List.length_singleton]; omega)]
      rfl

theorem length_push (t : ScopeTree) (parent : Nat) (kind : ScopeKind) :
    (t.push parent kind).2.scopes.length = t.scopes.length + 1 := by
  rw [← length_links, links_push, List.length_append, length_links, List.length_singleton]

theorem Rooted.push {t : ScopeTree} (ht : t.Rooted) {parent : Nat}
    (hparent : parent < t.scopes.length) (kind : ScopeKind) : (t.push parent kind).2.Rooted := by
  refine ⟨by rw [length_push]; omega, ?_, ?_⟩
  · intro i p hp
    rw [parent?_push] at hp
    split at hp
    · exact ht.parentsBelow i p hp
    · split at hp
      · cases hp
        omega
      · cases hp
  · intro i hi hp
    rw [parent?_push] at hp
    rw [length_push] at hi
    split at hp
    · rename_i hlt
      exact ht.onlyRoot i hlt hp
    · rw [if_pos (by omega)] at hp
      cases hp

/-! ### Variables -/

theorem scope?_modifyScope (t : ScopeTree) (i j : Nat) (f : Scope → Scope) :
    (t.modifyScope i f).scope? j = if i = j then (t.scope? j).map f else t.scope? j := by
  simp only [scope?, modifyScope, List.getElem?_modify]
  cases t.scopes[j]? <;> split <;> simp_all

/-- What a change to a scope keeps, it keeps in every scope. -/
theorem map_scope?_modifyScope {α : Type} {g : Scope → α} (t : ScopeTree) (i : Nat) {f : Scope → Scope}
    (h : ∀ s, g (f s) = g s) (j : Nat) :
    ((t.modifyScope i f).scope? j).map g = (t.scope? j).map g := by
  rw [scope?_modifyScope]
  split
  · rw [Option.map_map]
    congr 1
    funext s
    exact h s
  · rfl

theorem info?_modifyScope (t : ScopeTree) (i : Nat) (f : Scope → Scope)
    (h : ∀ s, (f s).locals = s.locals) (slot : Slot) :
    (t.modifyScope i f).info? slot = t.info? slot := by
  unfold info?
  rw [scope?_modifyScope]
  split
  · cases t.scope? slot.scope with
    | none => rfl
    | some s => simp [h]
  · rfl

theorem info?_modifyVariable (t : ScopeTree) (slot slot' : Slot)
    (f : VariableInfo → VariableInfo) :
    (t.modifyVariable slot f).info? slot' =
      if slot = slot' then (t.info? slot').map f else t.info? slot' := by
  obtain ⟨i, j⟩ := slot
  obtain ⟨i', j'⟩ := slot'
  simp only [modifyVariable, info?, scope?_modifyScope, Slot.mk.injEq]
  cases hs : t.scope? i' with
  | none => by_cases hi : i = i' <;> simp [hi]
  | some s =>
    by_cases hi : i = i'
    · by_cases hj : j = j'
      · cases hl : s.locals[j']? <;> simp [hi, hj, hl]
      · simp [hi, hj]
    · simp [hi]

theorem locals_noteEscape (s : Scope) (key : VariableKey) (isAssigned : Bool) :
    (s.noteEscape key isAssigned).locals = s.locals := by
  unfold Scope.noteEscape
  split <;> rfl

theorem info?_noteEscapes (t : ScopeTree) (key : VariableKey) (isAssigned : Bool)
    (is : List Nat) (slot : Slot) :
    (t.noteEscapes key isAssigned is).info? slot = t.info? slot := by
  induction is generalizing t with
  | nil => rfl
  | cons i is ih =>
    rw [noteEscapes, ih]
    exact info?_modifyScope t i _ (fun s => locals_noteEscape s key isAssigned) slot

/-- A new scope comes behind the others, and its parent lists it. -/
theorem scope?_push (t : ScopeTree) (parent : Nat) (kind : ScopeKind) (i : Nat) :
    (t.push parent kind).2.scope? i =
      if i = t.scopes.length then some ⟨kind, some parent, [], [], []⟩
      else (t.modifyScope parent fun s =>
        { s with children := s.children ++ [t.scopes.length] }).scope? i := by
  have hlength : (t.scopes.modify parent fun s =>
      { s with children := s.children ++ [t.scopes.length] }).length = t.scopes.length :=
    List.length_modify ..
  simp only [push, scope?, modifyScope, List.getElem?_append, hlength]
  by_cases hi : i = t.scopes.length
  · simp [hi]
  · rw [if_neg hi]
    split
    · rfl
    next hlt =>
      rw [List.getElem?_eq_none (by rw [List.length_singleton]; omega),
        List.getElem?_eq_none (by rw [hlength]; exact Nat.le_of_not_lt hlt)]

theorem info?_push (t : ScopeTree) (parent : Nat) (kind : ScopeKind) (slot : Slot) :
    (t.push parent kind).2.info? slot = t.info? slot := by
  rw [← info?_modifyScope t parent
    (fun s => { s with children := s.children ++ [t.scopes.length] }) (fun _ => rfl) slot]
  unfold info?
  rw [scope?_push]
  split
  next hnew =>
    -- the new scope has no variables, and before it there was none
    rw [scope?_modifyScope, hnew, show t.scope? t.scopes.length = none from List.getElem?_eq_none (Nat.le_refl _)]
    simp
  next => rfl

theorem slotIn?_eq_some {t : ScopeTree} {i : Nat} {key : VariableKey} {slot : Slot}
    (h : t.slotIn? i key = some slot) :
    ∃ s index, t.scope? i = some s ∧ s.indexOf? key = some index ∧ slot = ⟨i, index⟩ := by
  simp only [slotIn?, Option.bind_eq_bind, Option.bind_eq_some_iff, Option.pure_def,
    Option.some.injEq] at h
  obtain ⟨s, hs, index, hindex, rfl⟩ := h
  exact ⟨s, index, hs, hindex, rfl⟩

theorem info?_of_slotIn? {t : ScopeTree} {i : Nat} {key : VariableKey} {slot : Slot}
    (h : t.slotIn? i key = some slot) : ∃ v, t.info? slot = some v ∧ v.key = key := by
  obtain ⟨s, index, hs, hindex, rfl⟩ := slotIn?_eq_some h
  obtain ⟨hlt, hkey, -⟩ := List.findIdx?_eq_some_iff_getElem.mp hindex
  refine ⟨s.locals[index], ?_, by simpa using hkey⟩
  simp [info?, hs, List.getElem?_eq_getElem hlt]

/-- What declaring and resolving come to: the slot has its variable already, and nothing changes, or it gets
a new one. -/
def Makes (t t' : ScopeTree) (slot : Slot) (key : VariableKey) (d : Declaration) : Prop :=
  (∃ v, t.info? slot = some v ∧ v.key = key ∧ t' = t) ∨
    (t.info? slot = none ∧ ∀ slot', t'.info? slot' =
      if slot' = slot then some { key, declaration := d } else t.info? slot')

theorem declare_cases (t : ScopeTree) {i : Nat} (hi : i < t.scopes.length) (key : VariableKey)
    (d : Declaration) : t.Makes (t.declare i key d).2 (t.declare i key d).1 key d := by
  unfold declare
  cases hslot : t.slotIn? i key with
  | some slot =>
    left
    obtain ⟨v, hv, hkey⟩ := info?_of_slotIn? hslot
    exact ⟨v, hv, hkey, rfl⟩
  | none =>
    right
    have hs : t.scope? i = some (t.scopes.get ⟨i, hi⟩) := List.getElem?_eq_getElem hi
    refine ⟨by simp [info?, hs], ?_⟩
    rintro ⟨i', j⟩
    simp only [info?, scope?_modifyScope, hs, Option.map_some, Option.getD_some, Slot.mk.injEq]
    by_cases hi' : i = i'
    · subst hi'
      simp only [hs, if_true, Option.map_some, Option.bind_some, true_and, List.getElem?_append]
      split
      · rename_i hj
        rw [if_neg (by omega)]
      · rename_i hj
        by_cases hj' : j = (t.scopes.get ⟨i, hi⟩).locals.length
        · simp [hj']
        · rw [if_neg hj', List.getElem?_eq_none (Nat.le_of_not_lt hj),
            List.getElem?_eq_none (by rw [List.length_singleton]; omega)]
    · simp [hi', Ne.symm hi']

/-- A variable that is not found is made, as a free one. -/
theorem resolve_cases (t : ScopeTree) (ht : 0 < t.scopes.length) (start : Nat)
    (key : VariableKey) : t.Makes (t.resolve start key).2 (t.resolve start key).1 key .undeclared := by
  unfold resolve
  cases hslot : t.find? start key with
  | some slot =>
    left
    obtain ⟨i, -, hi⟩ := List.exists_of_findSome?_eq_some hslot
    obtain ⟨v, hv, hkey⟩ := info?_of_slotIn? hi
    exact ⟨v, hv, hkey, rfl⟩
  | none => exact declare_cases t ht key .undeclared

/-- A variable is declared in the scope that is named. -/
theorem scope_declare (t : ScopeTree) (i : Nat) (key : VariableKey) (d : Declaration) :
    (t.declare i key d).1.scope = i := by
  unfold declare
  cases h : t.slotIn? i key with
  | none => rfl
  | some slot =>
    obtain ⟨_, _, _, _, rfl⟩ := slotIn?_eq_some h
    rfl

/-- A variable is resolved to a scope around the place it is seen from. -/
theorem inside_resolve {t : ScopeTree} (ht : t.Rooted) {start : Nat}
    (hstart : start < t.scopes.length) (key : VariableKey) :
    t.Inside start (t.resolve start key).1.scope := by
  unfold resolve
  cases hslot : t.find? start key with
  | some slot =>
    obtain ⟨i, hi, hslot⟩ := List.exists_of_findSome?_eq_some hslot
    obtain ⟨_, _, _, _, rfl⟩ := slotIn?_eq_some hslot
    exact (mem_path_iff ht.parentsBelow start i).mp hi
  | none =>
    show t.Inside start (t.declare rootScope key .undeclared).1.scope
    rw [scope_declare]
    exact ht.inside_root hstart

/-! ### Operations and runs -/

/-- What can be asked of a scope tree. -/
inductive Operation where
  | push (parent : Nat) (kind : ScopeKind)
  | declare (scope : Nat) (key : VariableKey) (declaration : Declaration)
  | resolve (start : Nat) (key : VariableKey)
  | access (start : Nat) (key : VariableKey) (how : Access)
deriving DecidableEq, Repr

/-- The operation names a scope that exists, and declares a variable in the list of its block or
not at all. -/
def Operation.IsValid (t : ScopeTree) : Operation → Prop
  | .push parent _ => parent < t.scopes.length
  | .declare scope _ d => scope < t.scopes.length ∧ (d = .inList ∨ d = .undeclared)
  | .resolve start _ => start < t.scopes.length
  | .access start _ _ => start < t.scopes.length

instance (t : ScopeTree) : (op : Operation) → Decidable (op.IsValid t)
  | .push parent _ => inferInstanceAs (Decidable (parent < t.scopes.length))
  | .declare scope _ d =>
    inferInstanceAs (Decidable (scope < t.scopes.length ∧ (d = .inList ∨ d = .undeclared)))
  | .resolve start _ | .access start _ _ =>
    inferInstanceAs (Decidable (start < t.scopes.length))

/-- A tree with the record of what was done to its variables. -/
structure Recorded where
  tree : ScopeTree := {}
  /-- Every slot when it got its variable, with how that was declared. -/
  made : List (Slot × Declaration) := []
  /-- Every access in order: the slot it resolved to, the scope it came from and its manner. -/
  accesses : List (Slot × Nat × Access) := []

namespace Recorded

/-- The slots made so far, with this one if it held no variable yet. -/
def madeWith (r : Recorded) (slot : Slot) (d : Declaration) : List (Slot × Declaration) :=
  if (r.tree.info? slot).isNone then r.made ++ [(slot, d)] else r.made

def step (r : Recorded) : Operation → Recorded
  | .push parent kind => { r with tree := (r.tree.push parent kind).2 }
  | .declare scope key d =>
    let (slot, tree) := r.tree.declare scope key d
    { r with tree, made := r.madeWith slot d }
  | .resolve start key =>
    let (slot, tree) := r.tree.resolve start key
    { r with tree, made := r.madeWith slot .undeclared }
  | .access start key how =>
    let (slot, tree) := r.tree.access start key how
    { tree, made := r.madeWith slot .undeclared
      accesses := r.accesses ++ [(slot, start, how)] }

def run (r : Recorded) : List Operation → Recorded
  | [] => r
  | op :: ops => run (r.step op) ops

/-- Every operation is valid when its turn comes. -/
def IsValid (r : Recorded) : List Operation → Prop
  | [] => True
  | op :: ops => op.IsValid r.tree ∧ IsValid (r.step op) ops

instance decidableIsValid (r : Recorded) : (ops : List Operation) → Decidable (r.IsValid ops)
  | [] => inferInstanceAs (Decidable True)
  | op :: ops =>
    have := decidableIsValid (r.step op) ops
    inferInstanceAs (Decidable (op.IsValid r.tree ∧ (r.step op).IsValid ops))

/-- How the variable of a slot was declared when it was made. -/
def declaredAs? (r : Recorded) (slot : Slot) : Option Declaration := r.made.lookup slot

/-- The accesses that resolved to a slot, each with the scope it came from. -/
def history (r : Recorded) (slot : Slot) : List (Nat × Access) :=
  (r.accesses.filter (·.1 == slot)).map (·.2)

/-- What holds at the start and survives every valid operation holds after every run. -/
theorem run_induction {P : Recorded → Prop}
    (hstep : ∀ r op, P r → op.IsValid r.tree → P (r.step op)) {r : Recorded} (hr : P r)
    {ops : List Operation} (h : r.IsValid ops) : P (r.run ops) := by
  induction ops generalizing r with
  | nil => exact hr
  | cons op ops ih => exact ih (hstep r op hr h.1) h.2

theorem links_step (r : Recorded) (op : Operation) :
    r.tree.links <+: (r.step op).tree.links := by
  cases op with
  | push parent kind =>
    show _ <+: (r.tree.push parent kind).2.links
    rw [links_push]
    exact List.prefix_append _ _
  | declare scope key d =>
    show _ <+: (r.tree.declare scope key d).2.links
    exact (links_declare ..).symm ▸ List.prefix_rfl
  | resolve start key =>
    show _ <+: (r.tree.resolve start key).2.links
    exact (links_resolve ..).symm ▸ List.prefix_rfl
  | access start key how =>
    show _ <+: (r.tree.access start key how).2.links
    exact (links_access ..).symm ▸ List.prefix_rfl

theorem rooted_start : Rooted ({} : Recorded).tree := by
  refine ⟨by decide, ?_, ?_⟩
  · intro i p hp
    obtain ⟨s, hs, hp⟩ := Option.bind_eq_some_iff.mp hp
    have := List.mem_of_getElem? hs
    rw [List.mem_singleton] at this
    rw [this] at hp
    cases hp
  · intro i hi _
    exact Nat.lt_one_iff.mp hi

end Recorded
end ScopeTree
end TreeScribe
