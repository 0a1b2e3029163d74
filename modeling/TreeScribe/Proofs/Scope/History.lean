import Mathlib.Data.List.Basic
import TreeScribe.Proofs.Scope.Run

/-! How a variable is declared, read off the accesses to it.

A variable keeps a few fields about its past. `Faithful` says that they hold what replaying its
whole history gives, and every operation keeps that (`faithful_step`). What a replay comes to is
then a matter of the history alone: the first access may take the declaration, and it keeps it
as long as all later ones come from within its scope (`replay_carried`). -/
namespace TreeScribe

/-! ### Replaying a history -/

/-- The access may take the declaration, if it comes first. -/
def Access.mayDeclare : Access → Bool
  | .assignment _ isStatement => isStatement
  | .output inline => inline
  | .reference _ => false

/-- The variable after an access that takes the declaration. -/
def Access.declaring (access : Access) (start : Nat) (v : VariableInfo) : VariableInfo :=
  match access with
  | .assignment node _ =>
    { v with
      declaration := .joinedAssignment, carrier := some node, home := some start, seen := true
      uses := v.uses + 1 }
  | _ => { v with declaration := .inlineOutput, home := some start, seen := true }

theorem Access.applied_eq (access : Access) (start : Nat) (escapes : Bool)
    (isOutside : Nat → Bool) (v : VariableInfo) :
    access.applied start escapes isOutside v =
      if access.mayDeclare && v.isFresh && !escapes then access.declaring start v
      else v.used isOutside := by
  cases access with
  | reference isAssigned => rfl
  | assignment node isStatement => cases isStatement <;> simp [applied, mayDeclare, declaring]
  | output inline => cases inline <;> simp [applied, mayDeclare, declaring]

theorem Access.key_applied (access : Access) (start : Nat) (escapes : Bool)
    (isOutside : Nat → Bool) (v : VariableInfo) :
    (access.applied start escapes isOutside v).key = v.key := by
  rw [applied_eq]
  split
  · cases access <;> rfl
  · unfold VariableInfo.used
    dsimp only
    split <;> rfl

namespace VariableInfo

theorem used_of_not_carried {v : VariableInfo} (h : v.isCarried = false)
    (isOutside : Nat → Bool) :
    v.used isOutside = { v with seen := true, uses := v.uses + 1 } := by
  have h' : ({ v with seen := true, uses := v.uses + 1 } : VariableInfo).isCarried = false := h
  simp [used, h']

theorem used_of_carried {v : VariableInfo} (h : v.isCarried = true) {home : Nat}
    (hhome : v.home = some home) (isOutside : Nat → Bool) :
    v.used isOutside =
      if isOutside home then
        { v with declaration := .inList, carrier := none, seen := true, uses := v.uses + 1 }
      else { v with seen := true, uses := v.uses + 1 } := by
  have h' : ({ v with seen := true, uses := v.uses + 1 } : VariableInfo).isCarried = true := h
  simp only [used, h', Bool.true_and]
  simp only [hhome, Option.any_some]

section Replay

variable (escapes : Nat → Bool) (isWithin : Nat → Nat → Bool)

/-- A variable after its accesses. `escapes` tells from which scopes an access crosses the border
of a method, `isWithin` which scopes lie within which. -/
def replay (v : VariableInfo) (history : List (Nat × Access)) : VariableInfo :=
  history.foldl (fun v a => a.2.applied a.1 (escapes a.1) (fun home => !isWithin a.1 home) v) v

variable {escapes isWithin}

theorem replay_cons (v : VariableInfo) (a : Nat × Access) (rest : List (Nat × Access)) :
    v.replay escapes isWithin (a :: rest) =
      (a.2.applied a.1 (escapes a.1) (fun home => !isWithin a.1 home) v).replay escapes isWithin
        rest :=
  rfl

theorem replay_append (v : VariableInfo) (xs ys : List (Nat × Access)) :
    v.replay escapes isWithin (xs ++ ys) =
      (v.replay escapes isWithin xs).replay escapes isWithin ys :=
  List.foldl_append

theorem replay_congr {escapes' : Nat → Bool} {isWithin' : Nat → Nat → Bool}
    {history : List (Nat × Access)} (he : ∀ a ∈ history, escapes' a.1 = escapes a.1)
    (hw : ∀ a ∈ history, isWithin' a.1 = isWithin a.1) (v : VariableInfo) :
    v.replay escapes' isWithin' history = v.replay escapes isWithin history := by
  apply List.foldl_ext
  intro v a ha
  rw [he a ha, hw a ha]

/-- A variable whose declaration is settled keeps it, and only counts. -/
theorem replay_settled {v : VariableInfo} (hfresh : v.isFresh = false)
    (hcarried : v.isCarried = false) (history : List (Nat × Access)) :
    v.replay escapes isWithin history =
      { v with seen := v.seen || !history.isEmpty, uses := v.uses + history.length } := by
  induction history generalizing v with
  | nil => simp [replay]
  | cons a rest ih =>
    have happlied : a.2.applied a.1 (escapes a.1) (fun home => !isWithin a.1 home) v =
        { v with seen := true, uses := v.uses + 1 } := by
      rw [Access.applied_eq, hfresh, Bool.and_false, Bool.false_and, if_neg Bool.false_ne_true,
        used_of_not_carried hcarried]
    rw [replay_cons, happlied, ih (v := { v with seen := true, uses := v.uses + 1 }) rfl hcarried]
    simp [Nat.add_assoc, Nat.add_comm 1]

/-- The access that took the declaration keeps it exactly if all later ones come from within its
scope. -/
theorem replay_carried {v : VariableInfo} (hseen : v.seen = true) (hcarried : v.isCarried = true)
    {home : Nat} (hhome : v.home = some home) (rest : List (Nat × Access)) :
    v.replay escapes isWithin rest =
      if rest.all fun a => isWithin a.1 home then { v with uses := v.uses + rest.length }
      else { v with declaration := .inList, carrier := none, uses := v.uses + rest.length } := by
  induction rest generalizing v with
  | nil => simp [replay]
  | cons a rest ih =>
    have hfresh : v.isFresh = false := by simp [isFresh, hseen]
    rw [replay_cons, Access.applied_eq, hfresh, Bool.and_false, Bool.false_and,
      if_neg Bool.false_ne_true, used_of_carried hcarried hhome, List.all_cons]
    cases isWithin a.1 home with
    | true =>
      simp only [Bool.not_true, Bool.false_eq_true, if_false, Bool.true_and]
      rw [ih (v := { v with seen := true, uses := v.uses + 1 }) rfl hcarried hhome]
      simp [hseen, Nat.add_assoc, Nat.add_comm 1]
    | false =>
      simp only [Bool.not_false, if_true, Bool.false_and, Bool.false_eq_true, if_false]
      rw [replay_settled rfl rfl]
      simp [hseen, Nat.add_assoc, Nat.add_comm 1]

/-- A new variable of the list after its first access and the later ones. -/
theorem replay_first (key : VariableKey) (start : Nat) (how : Access)
    (rest : List (Nat × Access)) :
    ({ key, declaration := .inList } : VariableInfo).replay escapes isWithin
        ((start, how) :: rest) =
      if how.mayDeclare && !escapes start then
        (how.declaring start { key, declaration := .inList }).replay escapes isWithin rest
      else { key, declaration := .inList, seen := true, uses := rest.length + 1 } := by
  rw [replay_cons, Access.applied_eq, show isFresh { key, declaration := .inList } = true from rfl,
    Bool.and_true]
  split
  · rfl
  · rw [used_of_not_carried rfl, replay_settled rfl rfl]
    simp [Nat.add_comm]

/-- The same after a first access that takes the declaration. -/
theorem replay_declaring (key : VariableKey) (start : Nat) (how : Access)
    (rest : List (Nat × Access)) :
    (how.declaring start { key, declaration := .inList }).replay escapes isWithin rest =
      let v := how.declaring start { key, declaration := .inList }
      if rest.all fun a => isWithin a.1 start then { v with uses := v.uses + rest.length }
      else { v with declaration := .inList, carrier := none, uses := v.uses + rest.length } := by
  cases how <;> exact replay_carried rfl rfl rfl rest

end Replay

end VariableInfo

namespace ScopeTree

/-! ### The fields of a variable tell its history -/

/-- An access from this scope crosses the border of a method on its way to the slot. -/
def escapes (t : ScopeTree) (slot : Slot) (start : Nat) : Bool :=
  !(t.extractedUpTo start slot).isEmpty

namespace Recorded

/-- The record agrees with the tree: slots without a variable have no past, and the others hold
what their past makes of a new variable. -/
structure Faithful (r : Recorded) : Prop where
  rooted : r.tree.Rooted
  starts : ∀ a ∈ r.accesses, a.2.1 < r.tree.scopes.length ∧ r.tree.Inside a.2.1 a.1.scope
  absent : ∀ slot, r.tree.info? slot = none →
    r.declaredAs? slot = none ∧ r.history slot = []
  present : ∀ slot v, r.tree.info? slot = some v → ∃ d, r.declaredAs? slot = some d ∧
    (d = .inList ∨ d = .undeclared) ∧
    v = ({ key := v.key, declaration := d } : VariableInfo).replay (r.tree.escapes slot)
      r.tree.isWithin (r.history slot)

theorem Faithful.of_mem_history {r : Recorded} (h : r.Faithful) {slot : Slot}
    {a : Nat × Access} (ha : a ∈ r.history slot) :
    a.1 < r.tree.scopes.length ∧ r.tree.Inside a.1 slot.scope := by
  obtain ⟨b, hb, rfl⟩ := List.mem_map.mp ha
  obtain ⟨hb, hslot⟩ := List.mem_filter.mp hb
  have := h.starts b hb
  rwa [beq_iff_eq.mp hslot] at this

theorem inside_of_growth {t t' : ScopeTree} (h : t.links <+: t'.links) {i outer : Nat}
    (hi : i < t.scopes.length) (ht : t.Rooted) (hin : t.Inside i outer) : t'.Inside i outer := by
  induction hin with
  | refl i => exact .refl i
  | up hp _ ih =>
    have hlt := ht.parentsBelow _ _ hp
    exact .up ((parent?_of_growth h hi).trans hp) (ih (by omega))

/-- A replay comes to the same in every later tree. -/
theorem Faithful.replay_of_growth {r : Recorded} (h : r.Faithful) {t' : ScopeTree}
    (ht : r.tree.links <+: t'.links) (slot : Slot) (v : VariableInfo) :
    v.replay (t'.escapes slot) t'.isWithin (r.history slot) =
      v.replay (r.tree.escapes slot) r.tree.isWithin (r.history slot) := by
  apply VariableInfo.replay_congr
  · intro a ha
    rw [escapes, escapes, extractedUpTo_of_growth ht (h.of_mem_history ha).1]
  · intro a ha
    funext outer
    exact isWithin_of_growth ht (h.of_mem_history ha).1 outer

theorem starts_of_growth {r : Recorded} (h : r.Faithful) {t' : ScopeTree}
    (ht : r.tree.links <+: t'.links) :
    ∀ a ∈ r.accesses, a.2.1 < t'.scopes.length ∧ t'.Inside a.2.1 a.1.scope := by
  intro a ha
  obtain ⟨hlt, hin⟩ := h.starts a ha
  exact ⟨Nat.lt_of_lt_of_le hlt (length_le_of_growth ht), inside_of_growth ht hlt h.rooted hin⟩

theorem faithful_push {r : Recorded} (h : r.Faithful) {parent : Nat}
    (hparent : parent < r.tree.scopes.length) (kind : ScopeKind) :
    (r.step (.push parent kind)).Faithful := by
  have hlinks := links_step r (.push parent kind)
  refine ⟨h.rooted.push hparent kind, starts_of_growth h hlinks, ?_, ?_⟩
  · intro slot hslot
    exact h.absent slot ((info?_push r.tree parent kind slot).symm.trans hslot)
  · intro slot v hv
    obtain ⟨d, hd, hd', hreplay⟩ :=
      h.present slot v ((info?_push r.tree parent kind slot).symm.trans hv)
    exact ⟨d, hd, hd', hreplay.trans (h.replay_of_growth hlinks slot _).symm⟩

/-- Declaring and resolving keep the record faithful: they make a variable or change nothing. -/
theorem faithful_make {r : Recorded} (h : r.Faithful) {t' : ScopeTree}
    (hlinks : t'.links = r.tree.links) {slot : Slot} {key : VariableKey} {d : Declaration}
    (hd : d = .inList ∨ d = .undeclared)
    (hmakes : r.tree.Makes t' slot key d) :
    ({ r with tree := t', made := r.madeWith slot d } : Recorded).Faithful := by
  rcases hmakes with ⟨v, hv, -, rfl⟩ | ⟨hnone, hinfo⟩
  · have hmade : r.madeWith slot d = r.made := by simp [madeWith, hv]
    rw [hmade]
    exact h
  · have hprefix : r.tree.links <+: t'.links := hlinks ▸ List.prefix_rfl
    have hmade : ∀ slot', (r.madeWith slot d).lookup slot' =
        if slot' = slot then some d else r.declaredAs? slot' := by
      intro slot'
      simp only [madeWith, hnone, Option.isNone_none, if_true, List.lookup_append, declaredAs?]
      by_cases hs : slot' = slot
      · subst hs
        have : r.made.lookup slot' = none := (h.absent slot' hnone).1
        simp [this]
      · have : (slot' == slot) = false := by simpa using hs
        simp [hs, List.lookup_cons, this]
    refine ⟨h.rooted.of_links hlinks, starts_of_growth h hprefix, ?_, ?_⟩
    · intro slot' hslot'
      rw [hinfo] at hslot'
      split at hslot'
      · cases hslot'
      · rename_i hs
        refine ⟨?_, (h.absent slot' hslot').2⟩
        show (r.madeWith slot d).lookup slot' = none
        rw [hmade, if_neg hs]
        exact (h.absent slot' hslot').1
    · intro slot' v hv
      rw [hinfo] at hv
      split at hv
      · rename_i hs
        subst hs
        cases hv
        refine ⟨d, ?_, hd, ?_⟩
        · show (r.madeWith slot' d).lookup slot' = some d
          rw [hmade, if_pos rfl]
        · show _ = VariableInfo.replay _ _ _ (r.history slot')
          rw [(h.absent slot' hnone).2]
          rfl
      · rename_i hs
        obtain ⟨d', hd', hd'', hreplay⟩ := h.present slot' v hv
        refine ⟨d', ?_, hd'', hreplay.trans (h.replay_of_growth hprefix slot' _).symm⟩
        show (r.madeWith slot d).lookup slot' = some d'
        rw [hmade, if_neg hs]
        exact hd'

theorem faithful_resolve {r : Recorded} (h : r.Faithful) (start : Nat) (key : VariableKey) :
    (r.step (.resolve start key)).Faithful :=
  faithful_make h (links_resolve r.tree start key) (.inr rfl)
    (resolve_cases r.tree h.rooted.nonempty start key)

theorem history_access (r : Recorded) (start : Nat) (key : VariableKey) (how : Access)
    (slot : Slot) :
    (r.step (.access start key how)).history slot =
      r.history slot ++ if slot = (r.tree.resolve start key).1 then [(start, how)] else [] := by
  show ((r.accesses ++ [((r.tree.resolve start key).1, start, how)]).filter _).map _ = _
  rw [List.filter_append, List.map_append]
  congr 1
  by_cases hs : slot = (r.tree.resolve start key).1
  · simp [hs]
  · have : ((r.tree.resolve start key).1 == slot) = false := by
      simpa using fun h => hs h.symm
    simp [hs, this]

/-- An access resolves its variable and then applies to that variable alone. -/
theorem info?_access (t : ScopeTree) (start : Nat) (key : VariableKey) (how : Access)
    (hstart : start < t.scopes.length) (slot : Slot) :
    (t.access start key how).2.info? slot =
      let r := t.resolve start key
      if r.1 = slot then
        (r.2.info? slot).map
          (how.applied start (r.2.escapes slot start) fun home => !r.2.isWithin start home)
      else r.2.info? slot := by
  have hwithin : ∀ is home,
      ((t.resolve start key).2.noteEscapes key how.isWrite is).isWithin start home =
        (t.resolve start key).2.isWithin start home := by
    intro is home
    apply isWithin_of_growth ((links_noteEscapes ..).symm ▸ List.prefix_rfl)
    rwa [← length_links, links_resolve, length_links]
  rw [access_eq]
  dsimp only
  rw [info?_modifyVariable, info?_noteEscapes]
  simp only [hwithin]
  split
  · rename_i hs
    subst hs
    rfl
  · rfl

theorem faithful_access {r : Recorded} (h : r.Faithful) {start : Nat}
    (hstart : start < r.tree.scopes.length) (key : VariableKey) (how : Access) :
    (r.step (.access start key how)).Faithful := by
  -- an access begins as the resolution of its variable, which is faithful already
  have hr := faithful_resolve h start key
  have hresolved : (r.tree.resolve start key).2.links = r.tree.links := links_resolve ..
  have hlinks : (r.tree.access start key how).2.links = (r.tree.resolve start key).2.links :=
    (links_access ..).trans hresolved.symm
  have hprefix : (r.step (.resolve start key)).tree.links <+:
      (r.step (.access start key how)).tree.links := hlinks ▸ List.prefix_rfl
  have hstart' : start < (r.tree.resolve start key).2.scopes.length := by
    rwa [← length_links, hresolved, length_links]
  refine ⟨h.rooted.of_links (links_access ..), ?_, ?_, ?_⟩
  · intro a ha
    rcases List.mem_append.mp ha with ha | ha
    · exact starts_of_growth h (links_step r (.access start key how)) a ha
    · rw [List.mem_singleton.mp ha]
      refine ⟨Nat.lt_of_lt_of_le hstart (length_le_of_growth (links_step r _)), ?_⟩
      exact inside_of_growth (links_step r (.access start key how)) hstart h.rooted
        (inside_resolve h.rooted hstart key)
  · intro slot hslot
    have hinfo := info?_access r.tree start key how hstart slot
    rw [show (r.tree.access start key how).2.info? slot = none from hslot] at hinfo
    dsimp only at hinfo
    split at hinfo
    · rename_i hs
      -- the slot that was resolved has a variable
      rcases resolve_cases r.tree h.rooted.nonempty start key with ⟨v, hv, -, heq⟩ | ⟨-, heq⟩
      · rw [heq, ← hs, hv] at hinfo
        cases hinfo
      · rw [heq, if_pos hs.symm] at hinfo
        cases hinfo
    · rename_i hs
      refine ⟨(hr.absent slot hinfo.symm).1, ?_⟩
      rw [history_access, if_neg (Ne.symm hs), List.append_nil]
      exact (hr.absent slot hinfo.symm).2
  · intro slot v hv
    have hinfo := info?_access r.tree start key how hstart slot
    rw [show (r.tree.access start key how).2.info? slot = some v from hv] at hinfo
    dsimp only at hinfo
    split at hinfo
    · rename_i hs
      obtain ⟨u, hu, rfl⟩ := Option.map_eq_some_iff.mp hinfo.symm
      obtain ⟨d, hd, hd', hreplay⟩ := hr.present slot u hu
      refine ⟨d, hd, hd', ?_⟩
      rw [history_access, if_pos hs.symm, VariableInfo.replay_append]
      have hold := (hr.replay_of_growth hprefix slot { key := u.key, declaration := d }).trans
        hreplay.symm
      have hescapes := congrArg (fun is => !is.isEmpty)
        (extractedUpTo_of_growth hprefix hstart' slot)
      have hwithin : (r.step (.access start key how)).tree.isWithin start =
          (r.tree.resolve start key).2.isWithin start :=
        funext fun outer => isWithin_of_growth hprefix hstart' outer
      rw [Access.key_applied]
      refine Eq.trans ?_ (congrArg (VariableInfo.replay _ _ · [(start, how)]) hold.symm)
      rw [VariableInfo.replay_cons, hwithin]
      exact congrArg (how.applied start · _ u) hescapes.symm
    · rename_i hs
      obtain ⟨d, hd, hd', hreplay⟩ := hr.present slot v hinfo.symm
      refine ⟨d, hd, hd', ?_⟩
      rw [history_access, if_neg (Ne.symm hs), List.append_nil]
      exact hreplay.trans (hr.replay_of_growth hprefix slot _).symm

theorem faithful_step {r : Recorded} (h : r.Faithful) {op : Operation}
    (hop : op.IsValid r.tree) : (r.step op).Faithful := by
  cases op with
  | push parent kind => exact faithful_push h hop kind
  | declare scope key d =>
    exact faithful_make h (links_declare ..) hop.2 (declare_cases r.tree hop.1 key d)
  | resolve start key => exact faithful_resolve h start key
  | access start key how => exact faithful_access h hop key how

theorem faithful_start : ({} : Recorded).Faithful := by
  have hnone : ∀ slot, ({} : Recorded).tree.info? slot = none := by
    rintro ⟨i, j⟩
    cases i with
    | zero => rfl
    | succ i => rfl
  refine ⟨rooted_start, ?_, fun _ _ => ⟨rfl, rfl⟩, ?_⟩
  · intro a ha
    cases ha
  · intro slot v hv
    rw [hnone] at hv
    cases hv

theorem faithful_run {ops : List Operation} (h : ({} : Recorded).IsValid ops) :
    (({} : Recorded).run ops).Faithful :=
  run_induction (fun _ _ hr hop => faithful_step hr hop) faithful_start h

end Recorded

/-! ### The law of declarations -/

/-- No extracted scope lies on the way from a scope, itself included, up to the one that declares
the slot, which is left out. -/
def Reaches (t : ScopeTree) (start : Nat) (slot : Slot) : Prop :=
  ∀ i, t.Inside start i → t.Inside i slot.scope → i ≠ slot.scope → t.isExtracted i = false

/-- The first access of a history comes from where it can declare the slot, and all later ones
from within its scope. -/
def Keeps (t : ScopeTree) (slot : Slot) (start : Nat) (rest : List (Nat × Access)) : Prop :=
  t.Reaches start slot ∧ ∀ a ∈ rest, t.Inside a.1 start

theorem escapes_eq_false_iff {t : ScopeTree} (ht : t.ParentsBelow) {slot : Slot} {start : Nat}
    (h : t.Inside start slot.scope) : t.escapes slot start = false ↔ t.Reaches start slot := by
  rw [escapes, Bool.not_eq_false', List.isEmpty_iff, extractedUpTo, List.filter_eq_nil_iff]
  constructor
  · intro hnone i hstart hscope hne
    have := hnone i ((mem_takeWhile_path ht h i).mpr ⟨hstart, hscope, hne⟩)
    simpa using this
  · intro hreach i hi
    obtain ⟨hstart, hscope, hne⟩ := (mem_takeWhile_path ht h i).mp hi
    simp [hreach i hstart hscope hne]

theorem all_isWithin_iff {t : ScopeTree} (ht : t.ParentsBelow) (start : Nat)
    (rest : List (Nat × Access)) :
    (rest.all fun a => t.isWithin a.1 start) = true ↔ ∀ a ∈ rest, t.Inside a.1 start := by
  simp only [List.all_eq_true, isWithin_iff ht]

namespace Recorded

/-- A first access that was taken as the place where an output variable is declared. -/
def TakesInline (r : Recorded) (slot : Slot) (a : Nat × Access) : Prop :=
  r.declaredAs? slot = some .inList ∧ a.2 = .output true ∧ r.tree.Reaches a.1 slot

section Past

variable {r : Recorded} (h : r.Faithful) {slot : Slot} {v : VariableInfo}
  (hv : r.tree.info? slot = some v)
include h hv

theorem Faithful.eq_of_undeclared (hd : r.declaredAs? slot = some .undeclared) :
    v.declaration = .undeclared ∧ v.uses = (r.history slot).length := by
  obtain ⟨d, hd', -, hreplay⟩ := h.present slot v hv
  cases hd.symm.trans hd'
  rw [VariableInfo.replay_settled rfl rfl] at hreplay
  rw [hreplay]
  exact ⟨rfl, Nat.zero_add _⟩

theorem Faithful.eq_of_untouched (hd : r.declaredAs? slot = some .inList)
    (hh : r.history slot = []) : v.declaration = .inList ∧ v.uses = 0 := by
  obtain ⟨d, hd', -, hreplay⟩ := h.present slot v hv
  cases hd.symm.trans hd'
  rw [hh] at hreplay
  rw [hreplay]
  exact ⟨rfl, rfl⟩

variable {start : Nat} {how : Access} {rest : List (Nat × Access)}

/-- The first access declares the variable exactly if it may and keeps the declaration. -/
theorem Faithful.declaration_first (hd : r.declaredAs? slot = some .inList)
    (hh : r.history slot = (start, how) :: rest) :
    ((how.mayDeclare = true ∧ r.tree.Keeps slot start rest) ∧
        v.declaration = (how.declaring start v).declaration ∧
        v.carrier = (how.declaring start { key := v.key, declaration := .inList }).carrier) ∨
      (¬ (how.mayDeclare = true ∧ r.tree.Keeps slot start rest) ∧ v.declaration = .inList) := by
  obtain ⟨d, hd', -, hreplay⟩ := h.present slot v hv
  cases hd.symm.trans hd'
  have hparents := h.rooted.parentsBelow
  have hin : r.tree.Inside start slot.scope :=
    (h.of_mem_history (a := (start, how)) (by rw [hh]; exact List.mem_cons_self ..)).2
  have hreaches := escapes_eq_false_iff hparents hin
  have hall := all_isWithin_iff hparents start rest
  rw [hh, VariableInfo.replay_first, VariableInfo.replay_declaring] at hreplay
  generalize hkey : v.key = key at hreplay ⊢
  cases hmay : how.mayDeclare with
  | false =>
    right
    rw [hreplay]
    simp [hmay]
  | true =>
    cases hesc : r.tree.escapes slot start with
    | true =>
      right
      have hnot : ¬ r.tree.Reaches start slot := by simp [← hreaches, hesc]
      refine ⟨fun hk => hnot hk.2.1, ?_⟩
      rw [hreplay]
      simp [hmay, hesc]
    | false =>
      have hreach := hreaches.mp hesc
      cases hwithin : rest.all fun a => r.tree.isWithin a.1 start with
      | true =>
        left
        refine ⟨⟨rfl, hreach, hall.mp hwithin⟩, ?_⟩
        rw [hreplay]
        cases how <;> simp [hmay, hesc, hwithin, Access.declaring]
      | false =>
        right
        have hnot : ¬ ∀ a ∈ rest, r.tree.Inside a.1 start := by
          rw [← hall, hwithin]
          exact Bool.false_ne_true
        refine ⟨fun hk => hnot hk.2.2, ?_⟩
        rw [hreplay]
        simp [hmay, hesc, hwithin]

/-- All accesses count, but for a first one that declares an output variable. -/
theorem Faithful.uses_first (hd : r.declaredAs? slot = some .inList)
    (hh : r.history slot = (start, how) :: rest) :
    (r.TakesInline slot (start, how) ∧ v.uses = rest.length) ∨
      (¬ r.TakesInline slot (start, how) ∧ v.uses = rest.length + 1) := by
  obtain ⟨d, hd', -, hreplay⟩ := h.present slot v hv
  cases hd.symm.trans hd'
  have hin : r.tree.Inside start slot.scope :=
    (h.of_mem_history (a := (start, how)) (by rw [hh]; exact List.mem_cons_self ..)).2
  have hreaches := escapes_eq_false_iff h.rooted.parentsBelow hin
  rw [hh, VariableInfo.replay_first, VariableInfo.replay_declaring] at hreplay
  have huses := congrArg VariableInfo.uses hreplay
  dsimp only at huses
  cases hesc : r.tree.escapes slot start with
  | true =>
    right
    have hnot : ¬ r.tree.Reaches start slot := by simp [← hreaches, hesc]
    refine ⟨fun ht => hnot ht.2.2, ?_⟩
    rw [huses]
    simp [hesc]
  | false =>
    have hreach := hreaches.mp hesc
    cases how with
    | reference isAssigned =>
      right
      refine ⟨fun ht => absurd ht.2.1 (by simp), ?_⟩
      rw [huses]
      rfl
    | assignment node isStatement =>
      right
      refine ⟨fun ht => absurd ht.2.1 (by simp), ?_⟩
      rw [huses]
      cases isStatement
      · rfl
      · simp only [Access.mayDeclare, hesc, Access.declaring]
        simp [apply_ite VariableInfo.uses, Nat.add_comm]
    | output inline =>
      cases inline
      · right
        refine ⟨fun ht => absurd ht.2.1 (by simp), ?_⟩
        rw [huses]
        rfl
      · left
        refine ⟨⟨hd, rfl, hreach⟩, ?_⟩
        rw [huses]
        simp only [Access.mayDeclare, hesc, Access.declaring]
        simp [apply_ite VariableInfo.uses]

/-- The variable is in use exactly if some access counts. -/
theorem Faithful.isUsed_iff :
    v.isUsed = true ↔
      ∃ i a, (r.history slot)[i]? = some a ∧ ¬ (i = 0 ∧ r.TakesInline slot a) := by
  rw [VariableInfo.isUsed, decide_eq_true_eq]
  obtain ⟨d, hd, rfl | rfl, -⟩ := h.present slot v hv
  · cases hh : r.history slot with
    | nil => simp [(h.eq_of_untouched hv hd hh).2]
    | cons a rest =>
      obtain ⟨start, how⟩ := a
      rcases h.uses_first hv hd hh with ⟨htakes, huses⟩ | ⟨htakes, huses⟩
      · rw [huses]
        constructor
        · intro hpos
          exact ⟨1, rest.get ⟨0, hpos⟩, by simp, by simp⟩
        · rintro ⟨i, a, hi, hnot⟩
          cases i with
          | zero =>
            cases hi
            exact absurd ⟨rfl, htakes⟩ hnot
          | succ i =>
            have : i + 1 < rest.length + 1 := (List.getElem?_eq_some_iff.mp hi).1
            omega
      · rw [huses]
        exact ⟨fun _ => ⟨0, _, rfl, fun hn => htakes hn.2⟩, fun _ => Nat.succ_pos _⟩
  · rw [(h.eq_of_undeclared hv hd).2]
    have hno : ∀ a, ¬ r.TakesInline slot a := by
      rintro a ⟨hd', -⟩
      cases hd.symm.trans hd'
    constructor
    · intro hpos
      exact ⟨0, _, List.getElem?_eq_getElem hpos, fun hn => hno _ hn.2⟩
    · rintro ⟨i, a, hi, -⟩
      exact Nat.lt_of_le_of_lt (Nat.zero_le i) (List.getElem?_eq_some_iff.mp hi).1

end Past

/-- **How a variable is declared is told by its accesses.** One that was declared nowhere stays
so. One of a list is declared by its first access exactly if that is an assignment as a statement
or an output argument that may declare, no method border lies between it and the block, and all
later accesses come from within its scope; else it stays in the list. It is in use exactly if
there is an access besides a first one that was taken as its place of declaration. -/
theorem declaration_iff_history (ops : List Operation) (h : ({} : Recorded).IsValid ops)
    (slot : Slot) (v : VariableInfo)
    (hv : (({} : Recorded).run ops).tree.info? slot = some v) :
    let r := ({} : Recorded).run ops
    let history := r.history slot
    ((r.declaredAs? slot = some .undeclared ∧ v.declaration = .undeclared) ∨
      (r.declaredAs? slot = some .inList ∧
        (∀ n, (v.declaration = .joinedAssignment ∧ v.joined? = some n) ↔
          ∃ s rest, history = (s, .assignment n true) :: rest ∧ r.tree.Keeps slot s rest) ∧
        (v.declaration = .inlineOutput ↔
          ∃ s rest, history = (s, .output true) :: rest ∧ r.tree.Keeps slot s rest) ∧
        (v.declaration = .inList ↔
          (¬ ∃ n s rest, history = (s, .assignment n true) :: rest ∧ r.tree.Keeps slot s rest) ∧
            ¬ ∃ s rest, history = (s, .output true) :: rest ∧ r.tree.Keeps slot s rest))) ∧
      (v.isUsed = true ↔
        ∃ i a, history[i]? = some a ∧ ¬ (i = 0 ∧ r.TakesInline slot a)) := by
  intro r history
  have hr : r.Faithful := faithful_run h
  obtain ⟨d, hd, rfl | rfl, -⟩ := hr.present slot v hv
  · refine ⟨.inr ⟨hd, ?_⟩, hr.isUsed_iff hv⟩
    cases hh : history with
    | nil => simp [VariableInfo.joined?, (hr.eq_of_untouched hv hd hh).1]
    | cons a rest =>
      obtain ⟨start, how⟩ := a
      rcases hr.declaration_first hv hd hh with ⟨⟨hmay, hkeeps⟩, hdecl, hcarrier⟩ | ⟨hnot, hdecl⟩
      · cases how with
        | reference isAssigned => cases hmay
        | assignment node isStatement =>
          cases hmay
          have hcarrier : v.carrier = some node := hcarrier
          have hdecl : v.declaration = .joinedAssignment := hdecl
          simp [VariableInfo.joined?, hdecl, hcarrier, hkeeps]
        | output inline =>
          cases hmay
          have hdecl : v.declaration = .inlineOutput := hdecl
          simp [hdecl, hkeeps]
      · have hassigned : ¬ ∃ n s rest', (start, how) :: rest = (s, .assignment n true) :: rest' ∧
            r.tree.Keeps slot s rest' := by
          rintro ⟨n, s, rest', heq, hkeeps⟩
          cases heq
          exact hnot ⟨rfl, hkeeps⟩
        have hpassed : ¬ ∃ s rest', (start, how) :: rest = (s, .output true) :: rest' ∧
            r.tree.Keeps slot s rest' := by
          rintro ⟨s, rest', heq, hkeeps⟩
          cases heq
          exact hnot ⟨rfl, hkeeps⟩
        refine ⟨fun n => ⟨fun hn => ?_, fun hn => absurd ⟨n, hn⟩ hassigned⟩,
          ⟨fun hn => ?_, fun hn => absurd hn hpassed⟩, fun _ => ⟨hassigned, hpassed⟩, fun _ => hdecl⟩
        · rw [hdecl] at hn
          cases hn.1
        · rw [hdecl] at hn
          cases hn
  · exact ⟨.inl ⟨hd, (hr.eq_of_undeclared hv hd).1⟩, hr.isUsed_iff hv⟩

/-- A variable of a block that is assigned in a block within a branch, and read in a lambda
there. -/
def nestedUse : List Operation :=
  let x : VariableKey := ⟨.int, "x"⟩
  [.push 0 .block, .declare 1 x .inList, .push 1 .branch, .push 2 .block,
    .access 3 x (.assignment 7 true), .push 3 .lambda, .access 4 x (.reference false)]

theorem declaration_nestedUse :
    let r := ({} : Recorded).run nestedUse
    let v : VariableInfo :=
      { key := ⟨.int, "x"⟩, declaration := .joinedAssignment, uses := 2, seen := true
        home := some 3, carrier := some 7 }
    ({} : Recorded).IsValid nestedUse ∧ r.tree.info? ⟨1, 0⟩ = some v ∧ v.isUsed = true ∧
      ∃ s rest, r.history ⟨1, 0⟩ = (s, .assignment 7 true) :: rest ∧
        r.tree.Keeps ⟨1, 0⟩ s rest := by
  intro r v
  have hvalid : ({} : Recorded).IsValid nestedUse := by decide +kernel
  have hv : r.tree.info? ⟨1, 0⟩ = some v := by decide +kernel
  refine ⟨hvalid, hv, rfl, ?_⟩
  rcases (declaration_iff_history nestedUse hvalid ⟨1, 0⟩ v hv).1 with h | h
  · cases h.2
  · exact (h.2.1 7).mp ⟨rfl, rfl⟩

end Recorded
end ScopeTree
end TreeScribe
