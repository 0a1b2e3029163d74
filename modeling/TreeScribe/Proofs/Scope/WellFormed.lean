import TreeScribe.Proofs.Scope.Keys

/-! What holds of every scope tree.

Scopes are linked both ways, by parents and by children, and their variables and escapes are lists without
repeated keys. `WellFormed` says so, and every operation on scopes that exist keeps it
(`WellFormed.perform`). The rest follows from the links alone, which only grow: the way up from a scope ends at
the root and stays what it is, and a variable is found in the nearest scope around that declares it. A slot
that an operation has given out holds a variable of that key ever after (`Holds.performAll`). `stays_wellFormed`
puts all of this together for any sequence of operations. -/
namespace TreeScribe

namespace ScopeTree

/-! ### Sequences of operations -/

/-- The scope that an operation names. -/
def Operation.scope : Operation → Nat
  | .push parent _ => parent
  | .declare scope _ _ => scope
  | .resolve start _ => start
  | .access start _ _ => start

/-- The tree after an operation. -/
def perform (t : ScopeTree) : Operation → ScopeTree
  | .push parent kind => (t.push parent kind).2
  | .declare scope key d => (t.declare scope key d).2
  | .resolve start key => (t.resolve start key).2
  | .access start key how => (t.access start key how).2

/-- The slot that an operation gives out, with the key that it was asked for. -/
def given? (t : ScopeTree) : Operation → Option (Slot × VariableKey)
  | .push _ _ => none
  | .declare scope key d => some ((t.declare scope key d).1, key)
  | .resolve start key => some ((t.resolve start key).1, key)
  | .access start key how => some ((t.access start key how).1, key)

def performAll (t : ScopeTree) (ops : List Operation) : ScopeTree := ops.foldl perform t

/-- Every operation names a scope that exists when its turn comes. -/
def Allows (t : ScopeTree) : List Operation → Prop
  | [] => True
  | op :: ops => op.scope < t.scopes.length ∧ Allows (t.perform op) ops

instance decidableAllows (t : ScopeTree) : (ops : List Operation) → Decidable (t.Allows ops)
  | [] => inferInstanceAs (Decidable True)
  | op :: ops =>
    have := decidableAllows (t.perform op) ops
    inferInstanceAs (Decidable (op.scope < t.scopes.length ∧ (t.perform op).Allows ops))

/-! ### Children -/

/-- The scopes that hang from a scope, in order. -/
def hanging (t : ScopeTree) (i : Nat) : List Nat :=
  (List.range t.scopes.length).filter fun j => t.parent? j == some i

def children? (t : ScopeTree) (i : Nat) : Option (List Nat) := (t.scope? i).map (·.children)

theorem hanging_of_links {t t' : ScopeTree} (h : t'.links = t.links) (i : Nat) :
    t'.hanging i = t.hanging i := by
  have hlength : t'.scopes.length = t.scopes.length := by
    rw [← length_links, ← length_links, h]
  unfold hanging
  rw [hlength]
  congr 1
  funext j
  rw [parent?_eq, parent?_eq, h]

theorem hanging_push (t : ScopeTree) (parent : Nat) (kind : ScopeKind) (i : Nat) :
    (t.push parent kind).2.hanging i =
      t.hanging i ++ if i = parent then [t.scopes.length] else [] := by
  unfold hanging
  rw [length_push, List.range_succ, List.filter_append]
  congr 1
  · apply List.filter_congr
    intro j hj
    rw [parent?_push, if_pos (List.mem_range.mp hj)]
  · rw [List.filter_cons, List.filter_nil, parent?_push, if_neg (Nat.lt_irrefl _), if_pos rfl]
    by_cases hi : i = parent
    · simp [hi]
    · simp [hi, Ne.symm hi]

/-- Nothing hangs from a scope that does not exist yet. -/
theorem hanging_eq_nil {t : ScopeTree} (ht : t.ParentsBelow) {i : Nat} (hi : t.scopes.length ≤ i) :
    t.hanging i = [] := by
  apply List.filter_eq_nil_iff.mpr
  intro j hj hparent
  have hlt := ht j i (beq_iff_eq.mp hparent)
  have := List.mem_range.mp hj
  omega

theorem children?_modifyScope (t : ScopeTree) (i : Nat) (f : Scope → Scope)
    (h : ∀ s, (f s).children = s.children) (j : Nat) :
    (t.modifyScope i f).children? j = t.children? j :=
  map_scope?_modifyScope t i h j

theorem children?_push (t : ScopeTree) (parent : Nat) (kind : ScopeKind) (i : Nat) :
    (t.push parent kind).2.children? i =
      if i = t.scopes.length then some []
      else (t.children? i).map (· ++ if i = parent then [t.scopes.length] else []) := by
  unfold children?
  rw [scope?_push]
  split
  · rfl
  · rw [scope?_modifyScope]
    by_cases hi : i = parent
    · simp [hi, Option.map_map, Function.comp_def]
    · simp [hi, Ne.symm hi, Function.comp_def]

theorem children?_declare (t : ScopeTree) (i : Nat) (key : VariableKey) (d : Declaration) (j : Nat) :
    (t.declare i key d).2.children? j = t.children? j := by
  unfold declare
  split
  · rfl
  · exact children?_modifyScope t i
      (fun s => { s with locals := s.locals ++ [{ key, declaration := d }] }) (fun _ => rfl) j

theorem children?_resolve (t : ScopeTree) (start : Nat) (key : VariableKey) (j : Nat) :
    (t.resolve start key).2.children? j = t.children? j := by
  unfold resolve
  split
  · rfl
  · exact children?_declare t rootScope key _ j

theorem children?_noteEscapes (t : ScopeTree) (key : VariableKey) (isAssigned : Bool) (is : List Nat)
    (j : Nat) : (t.noteEscapes key isAssigned is).children? j = t.children? j := by
  have hchildren (s : Scope) : (s.noteEscape key isAssigned).children = s.children := by
    unfold Scope.noteEscape
    split <;> rfl
  induction is generalizing t with
  | nil => rfl
  | cons i is ih =>
    rw [noteEscapes, ih]
    exact children?_modifyScope t i _ hchildren j

theorem children?_modifyVariable (t : ScopeTree) (slot : Slot) (f : VariableInfo → VariableInfo) (j : Nat) :
    (t.modifyVariable slot f).children? j = t.children? j :=
  children?_modifyScope t slot.scope (fun s => { s with locals := s.locals.modify slot.index f })
    (fun _ => rfl) j

theorem children?_access (t : ScopeTree) (start : Nat) (key : VariableKey) (how : Access) (j : Nat) :
    (t.access start key how).2.children? j = t.children? j := by
  rw [access_eq]
  dsimp only
  rw [children?_modifyVariable, children?_noteEscapes, children?_resolve]

/-! ### The invariant -/

/-- The root alone has no parent, and parents have smaller numbers. A scope lists as its children the scopes
that hang from it, in order. No scope has two variables or two escapes of one key, and only scopes that become
methods have escapes. -/
structure WellFormed (t : ScopeTree) : Prop where
  rooted : t.Rooted
  children : ∀ i children, t.children? i = some children → children = t.hanging i
  uniqueKeys : t.UniqueKeys
  escapes : ∀ i kind escaped, t.crossingState? i = some (kind, escaped) →
    (escaped.map (·.key)).Nodup ∧ (escaped ≠ [] → kind = .extracted)

namespace WellFormed

variable {t : ScopeTree}

theorem start : WellFormed {} := by
  refine ⟨Recorded.rooted_start, fun i children hi => ?_, fun i keys hi => ?_, fun i kind escaped hi => ?_⟩
  all_goals
    cases i with
    | zero =>
      cases hi
      decide
    | succ i => cases hi

theorem push (h : t.WellFormed) {parent : Nat} (hparent : parent < t.scopes.length) (kind : ScopeKind) :
    (t.push parent kind).2.WellFormed := by
  refine ⟨h.rooted.push hparent kind, fun i children hi => ?_, h.uniqueKeys.push parent kind,
    fun i kind' escaped hi => ?_⟩
  · rw [children?_push] at hi
    rw [hanging_push]
    split at hi
    next hnew =>
      cases hi
      rw [hanging_eq_nil h.rooted.parentsBelow (Nat.le_of_eq hnew.symm), if_neg (by omega), List.append_nil]
    next =>
      obtain ⟨old, hold, rfl⟩ := Option.map_eq_some_iff.mp hi
      rw [h.children i old hold]
  · rw [crossingState?_push] at hi
    split at hi
    · cases hi
      exact ⟨List.nodup_nil, fun hne => absurd rfl hne⟩
    · exact h.escapes i kind' escaped hi

/-- An operation that leaves the links and the escapes alone needs to keep the keys apart. -/
theorem of_links (h : t.WellFormed) {t' : ScopeTree} (hlinks : t'.links = t.links)
    (hchildren : ∀ i, t'.children? i = t.children? i) (hkeys : t'.UniqueKeys)
    (hescapes : ∀ i kind escaped, t'.crossingState? i = some (kind, escaped) →
      (escaped.map (·.key)).Nodup ∧ (escaped ≠ [] → kind = .extracted)) : t'.WellFormed := by
  refine ⟨h.rooted.of_links hlinks, fun i children hi => ?_, hkeys, hescapes⟩
  rw [hanging_of_links hlinks]
  exact h.children i children ((hchildren i).symm.trans hi)

theorem declare (h : t.WellFormed) (i : Nat) (key : VariableKey) (d : Declaration) :
    (t.declare i key d).2.WellFormed := by
  refine h.of_links (links_declare ..) (children?_declare t i key d) (h.uniqueKeys.declare i key d) ?_
  intro j kind escaped hj
  exact h.escapes j kind escaped ((crossingState?_declare t i key d j).symm.trans hj)

theorem resolve (h : t.WellFormed) (start : Nat) (key : VariableKey) :
    (t.resolve start key).2.WellFormed := by
  unfold ScopeTree.resolve
  split
  · exact h
  · exact h.declare rootScope key .undeclared

theorem nodup_noteEscape {s : Scope} (h : (s.escaped.map (·.key)).Nodup) (key : VariableKey)
    (isAssigned : Bool) : ((s.noteEscape key isAssigned).escaped.map (·.key)).Nodup := by
  rw [Scope.keys_noteEscape]
  split
  · exact h
  next hnew =>
    rw [← List.concat_eq_append]
    exact h.concat hnew

theorem access (h : t.WellFormed) {start : Nat} (hstart : start < t.scopes.length) (key : VariableKey)
    (how : Access) : (t.access start key how).2.WellFormed := by
  refine h.of_links (links_access ..) (children?_access t start key how)
    (h.uniqueKeys.access start key how) ?_
  intro i kind escaped hi
  obtain ⟨s, hs, rfl⟩ := Recorded.crossingState?_access h.rooted hstart key how hi
  obtain ⟨hnodup, hkind⟩ := h.escapes i kind s.escaped hs
  split
  next hcrosses => exact ⟨nodup_noteEscape hnodup key how.isWrite, fun _ => hcrosses.1⟩
  next => exact ⟨hnodup, hkind⟩

/-- **Every operation on a scope that exists keeps the invariant.** -/
theorem perform (h : t.WellFormed) {op : Operation} (hop : op.scope < t.scopes.length) :
    (t.perform op).WellFormed := by
  cases op with
  | push parent kind => exact h.push hop kind
  | declare scope key d => exact h.declare scope key d
  | resolve start key => exact h.resolve start key
  | access start key how => exact h.access hop key how

theorem performAll (h : t.WellFormed) {ops : List Operation} (hops : t.Allows ops) :
    (t.performAll ops).WellFormed := by
  induction ops generalizing t with
  | nil => exact h
  | cons op ops ih => exact ih (h.perform hops.1) hops.2

end WellFormed

/-! ### Growth -/

theorem Recorded.tree_step (r : Recorded) (op : Operation) : (r.step op).tree = r.tree.perform op := by
  cases op <;> rfl

theorem links_perform (t : ScopeTree) (op : Operation) : t.links <+: (t.perform op).links := by
  rw [← Recorded.tree_step { tree := t } op]
  exact Recorded.links_step { tree := t } op

theorem links_performAll (t : ScopeTree) (ops : List Operation) : t.links <+: (t.performAll ops).links := by
  induction ops generalizing t with
  | nil => exact List.prefix_rfl
  | cons op ops ih => exact (links_perform t op).trans (ih (t.perform op))

/-- A scope, its parent, and so on, up to one that has no parent. -/
inductive Walk (t : ScopeTree) : Nat → List Nat → Prop where
  | last {i : Nat} : t.parent? i = none → Walk t i [i]
  | up {i p : Nat} {is : List Nat} : t.parent? i = some p → Walk t p is → Walk t i (i :: is)

theorem Walk.unique {t : ScopeTree} {i : Nat} {is js : List Nat} (hi : t.Walk i is) (hj : t.Walk i js) :
    is = js := by
  induction hi generalizing js with
  | last hp =>
    cases hj with
    | last => rfl
    | up hp' _ => cases hp.symm.trans hp'
  | up hp _ ih =>
    cases hj with
    | last hp' => cases hp.symm.trans hp'
    | up hp' hj =>
      cases hp.symm.trans hp'
      rw [ih hj]

/-- The way up is what one passes on going from scope to parent until there is none. -/
theorem walk_iff {t : ScopeTree} (ht : t.ParentsBelow) (i : Nat) (is : List Nat) :
    t.Walk i is ↔ is = t.path i := by
  have hpath : t.Walk i (t.path i) := by
    induction i using Nat.strongRecOn with
    | ind i ih =>
      cases hp : t.parent? i with
      | none =>
        rw [path_of_root hp]
        exact .last hp
      | some p =>
        rw [path_of_parent ht hp]
        exact .up hp (ih p (ht i p hp))
  constructor
  · intro h
    exact h.unique hpath
  · rintro rfl
    exact hpath

/-! ### Slots -/

section Slots

variable {t : ScopeTree} {slot : Slot} {key : VariableKey}

theorem Holds.perform {op : Operation} (hop : op.scope < t.scopes.length) (h : t.Holds slot key) :
    (t.perform op).Holds slot key := by
  cases op with
  | push parent kind => exact h.push parent kind
  | declare scope key' d => exact h.made (declare_cases t hop key' d)
  | resolve start key' => exact h.made (resolve_cases t (Nat.zero_lt_of_lt hop) start key')
  | access start key' how => exact h.access hop key' how

/-- A slot that is given out has a variable of the key that was asked for. -/
theorem holds_of_given? {op : Operation} (hop : op.scope < t.scopes.length)
    (h : t.given? op = some (slot, key)) : (t.perform op).Holds slot key := by
  cases op with
  | push parent kind => cases h
  | declare scope key' d =>
    cases h
    exact (declare_cases t hop key d).holds
  | resolve start key' =>
    cases h
    exact (resolve_cases t (Nat.zero_lt_of_lt hop) start key).holds
  | access start key' how =>
    cases h
    exact holds_access hop key how

theorem Holds.performAll {ops : List Operation} (hops : t.Allows ops) (h : t.Holds slot key) :
    (t.performAll ops).Holds slot key := by
  induction ops generalizing t with
  | nil => exact h
  | cons op ops ih => exact ih hops.2 (h.perform hops.1)

end Slots

/-! ### Every tree -/

theorem Rooted.getLast?_path {t : ScopeTree} (ht : t.Rooted) {i : Nat} (hi : i < t.scopes.length) :
    (t.path i).getLast? = some rootScope := by
  induction i using Nat.strongRecOn with
  | ind i ih =>
    cases hp : t.parent? i with
    | none =>
      rw [path_of_root hp, ht.onlyRoot i hi hp]
      rfl
    | some p =>
      have hlt := ht.parentsBelow i p hp
      rw [path_of_parent ht.parentsBelow hp, List.getLast?_cons, ih p hlt (by omega)]
      rfl

/-- A variable is resolved to the nearest scope around that declares it, and to the root if there is none. -/
theorem resolve_nearest {t : ScopeTree} (ht : t.Rooted) {start : Nat} (hstart : start < t.scopes.length)
    (key : VariableKey) :
    let slot := (t.resolve start key).1
    (t.Holds slot key ∧ t.isWithin start slot.scope ∧
        ∀ j, t.isWithin start j → t.Declares j key → t.isWithin slot.scope j) ∨
      (slot.scope = rootScope ∧ ∀ j, t.isWithin start j → ¬t.Declares j key) := by
  have hbelow := ht.parentsBelow
  have hinside := inside_resolve ht hstart key
  simp only [isWithin_iff hbelow]
  cases hfind : t.find? start key with
  | some slot =>
    have hslot : (t.resolve start key).1 = slot := by rw [resolve, hfind]
    rw [hslot] at hinside ⊢
    obtain ⟨i, -, hi⟩ := List.exists_of_findSome?_eq_some hfind
    exact .inl ⟨info?_of_slotIn? hi, hinside, (nearest_of_find? hbelow hfind).2⟩
  | none =>
    have hroot : (t.resolve start key).1.scope = rootScope := by
      rw [resolve, hfind]
      exact scope_declare t rootScope key .undeclared
    exact .inr ⟨hroot, fun j hj => not_declares_of_find? hbelow hfind hj⟩

/-- **Scope trees stay well formed.** After any operations on scopes that exist, the tree is well formed. So
going from scope to parent ends, at the root; lying within is a partial order, which no later operation changes
for the scopes there are; a variable is resolved to the nearest scope around that declares it, and to the root
if there is none; and a slot that an operation gives out holds a variable of the key it was asked for, whatever
comes later. -/
theorem stays_wellFormed (ops : List Operation) (hops : ScopeTree.Allows {} ops) :
    let t := ({} : ScopeTree).performAll ops
    t.WellFormed ∧
      (∀ i, i < t.scopes.length →
        (∀ is, t.Walk i is ↔ is = t.path i) ∧ (t.path i).getLast? = some rootScope) ∧
      ((∀ i, t.isWithin i i) ∧ (∀ i j, t.isWithin i j → t.isWithin j i → i = j) ∧
        ∀ i j k, t.isWithin i j → t.isWithin j k → t.isWithin i k) ∧
      (∀ later i j, i < t.scopes.length → (t.performAll later).isWithin i j = t.isWithin i j) ∧
      (∀ start key, start < t.scopes.length →
        let slot := (t.resolve start key).1
        (t.Holds slot key ∧ t.isWithin start slot.scope ∧
            ∀ j, t.isWithin start j → t.Declares j key → t.isWithin slot.scope j) ∨
          (slot.scope = rootScope ∧ ∀ j, t.isWithin start j → ¬t.Declares j key)) ∧
      ∀ op slot key later, op.scope < t.scopes.length → t.given? op = some (slot, key) →
        (t.perform op).Allows later → ((t.perform op).performAll later).Holds slot key := by
  intro t
  have hwell : t.WellFormed := WellFormed.start.performAll hops
  have hbelow := hwell.rooted.parentsBelow
  refine ⟨hwell, fun i hi => ⟨walk_iff hbelow i, hwell.rooted.getLast?_path hi⟩, ⟨?_, ?_, ?_⟩, ?_, ?_, ?_⟩
  · intro i
    exact (isWithin_iff hbelow i i).mpr (.refl i)
  · intro i j hij hji
    rw [isWithin_iff hbelow] at hij hji
    exact hij.antisymm hbelow hji
  · intro i j k hij hjk
    rw [isWithin_iff hbelow] at hij hjk ⊢
    exact hij.trans hjk
  · intro later i j hi
    exact isWithin_of_growth (links_performAll t later) hi j
  · intro start key hstart
    exact resolve_nearest hwell.rooted hstart key
  · intro op slot key later hop hgiven hlater
    exact (holds_of_given? hop hgiven).performAll hlater

/-- A method in a lambda assigns a variable of the root and reads one that nobody declares; then a block in the
method declares a variable of the same name as the first. -/
theorem stays_wellFormed_method :
    let x : VariableKey := ⟨.int, "x"⟩
    let y : VariableKey := ⟨.int, "y"⟩
    let ops : List Operation :=
      [.declare 0 x .inList, .push 0 .lambda, .push 1 .extracted, .access 2 y (.reference false)]
    let later : List Operation := [.push 2 .block, .declare 3 x .inList, .access 3 x (.reference false)]
    let t := ({} : ScopeTree).performAll ops
    let t' := (t.perform (.access 2 x (.assignment 7 true))).performAll later
    ScopeTree.Allows {} ops ∧ t.WellFormed ∧ t'.isWithin 2 1 = t.isWithin 2 1 ∧ t'.Holds ⟨0, 0⟩ x := by
  intro x y ops later t t'
  have hops : ScopeTree.Allows {} ops := by decide +kernel
  obtain ⟨hwell, -, -, hwithin, -, hslot⟩ := stays_wellFormed ops hops
  refine ⟨hops, hwell, ?_, ?_⟩
  · exact hwithin (.access 2 x (.assignment 7 true) :: later) 2 1 (by decide +kernel)
  · exact hslot (.access 2 x (.assignment 7 true)) ⟨0, 0⟩ x later (by decide +kernel) (by decide +kernel)
      (by decide +kernel)

end ScopeTree
end TreeScribe
