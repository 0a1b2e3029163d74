import Mathlib.Data.List.Induction
import Mathlib.Data.List.Nodup
import TreeScribe.Proofs.Scope.History

/-! Which variables escape into a method.

A scope that becomes a method keeps a list of the variables that it takes from outside. An access
crosses into the method if it comes from within and finds its variable outside; the list sums up
the accesses that crossed (`escaped_eq_summary`), and every operation keeps it so
(`noted_step`). -/
namespace TreeScribe

namespace ScopeTree

/-- An access as it was asked for, with the slot it came to. -/
structure Asked where
  start : Nat
  key : VariableKey
  how : Access
  slot : Slot
deriving DecidableEq, Repr

namespace Asked

/-- The access comes from the scope or from within, and finds its variable outside. -/
def crosses (t : ScopeTree) (i : Nat) (a : Asked) : Bool :=
  t.isWithin a.start i && t.isWithin i a.slot.scope && a.slot.scope != i

/-- Each variable that is asked for, in order of the first access, and whether some access writes
to it. -/
def summary (as : List Asked) : List Escape :=
  (as.map (·.key)).eraseDups.map fun key =>
    ⟨key, as.any fun a => a.key == key && a.how.isWrite⟩

theorem keys_summary (as : List Asked) :
    (summary as).map (·.key) = (as.map (·.key)).eraseDups := by
  simp [summary, Function.comp_def]

theorem any_key_summary (as : List Asked) (key : VariableKey) :
    (summary as).any (·.key == key) = (as.map (·.key)).contains key := by
  rw [Bool.eq_iff_iff]
  simp [summary]

/-- The last key is new, or is no first occurrence. -/
theorem eraseDups_concat (keys : List VariableKey) (key : VariableKey) :
    (keys ++ [key]).eraseDups = if key ∈ keys then keys.eraseDups else keys.eraseDups ++ [key] := by
  have hone : [key].eraseDups = [key] := by simp [List.eraseDups_cons]
  rw [List.eraseDups_append]
  split
  next hmem =>
    rw [List.removeAll, List.filter_cons_of_neg (by simpa using hmem)]
    exact List.append_nil _
  next hmem => rw [List.removeAll, List.filter_cons_of_pos (by simpa using hmem), List.filter_nil, hone]

theorem nodup_eraseDups (keys : List VariableKey) : keys.eraseDups.Nodup := by
  induction keys using List.reverseRecOn with
  | nil => exact List.nodup_nil
  | append_singleton keys key ih =>
    rw [eraseDups_concat]
    split
    · exact ih
    next hnew =>
      rw [← List.concat_eq_append]
      exact ih.concat fun hmem => hnew (List.mem_eraseDups.mp hmem)

theorem summary_concat (as : List Asked) (a : Asked) :
    summary (as ++ [a]) =
      if a.key ∈ as.map (·.key) then
        (summary as).map fun e =>
          if e.key == a.key then { e with isAssigned := e.isAssigned || a.how.isWrite } else e
      else summary as ++ [⟨a.key, a.how.isWrite⟩] := by
  unfold summary
  rw [List.map_append, List.map_singleton, eraseDups_concat]
  split
  next hmem =>
    rw [List.map_map]
    refine List.map_congr_left fun key _ => ?_
    by_cases hkey : key = a.key
    · simp [hkey]
    · simp [hkey, Ne.symm hkey]
  next hmem =>
    have hnone : (as.any fun b => b.key == a.key && b.how.isWrite) = false := by
      rw [List.any_eq_false]
      intro b hb hkey
      rw [Bool.and_eq_true, beq_iff_eq] at hkey
      exact hmem (hkey.1 ▸ List.mem_map_of_mem hb)
    rw [List.map_append, List.map_singleton, List.any_append, hnone]
    congr 1
    · refine List.map_congr_left fun key hkey => ?_
      have hne : a.key ≠ key := fun heq => hmem (heq ▸ List.mem_eraseDups.mp hkey)
      simp [hne]
    · simp

theorem isAssigned_iff_of_mem_summary {as : List Asked} {e : Escape} (he : e ∈ summary as) :
    e.isAssigned = true ↔ ∃ a ∈ as, a.key = e.key ∧ a.how.isWrite = true := by
  obtain ⟨key, -, rfl⟩ := List.mem_map.mp he
  simp [List.any_eq_true]

/-- Whatever is asked for is in the summary. -/
theorem exists_mem_summary {as : List Asked} {a : Asked} (ha : a ∈ as) :
    ∃ e ∈ summary as, e.key = a.key ∧ (a.how.isWrite = true → e.isAssigned = true) := by
  have hkey : a.key ∈ (summary as).map (·.key) := by
    rw [keys_summary, List.mem_eraseDups]
    exact List.mem_map_of_mem ha
  obtain ⟨e, he, heq⟩ := List.mem_map.mp hkey
  exact ⟨e, he, heq, fun hw => (isAssigned_iff_of_mem_summary he).mpr ⟨a, ha, heq.symm, hw⟩⟩

end Asked

/-- A scope within another lies within all those around that one. -/
theorem Inside.trans {t : ScopeTree} {i j k : Nat} (h : t.Inside i j) (h' : t.Inside j k) :
    t.Inside i k := by
  induction h with
  | refl i => exact h'
  | up hp _ ih => exact .up hp (ih h')

end ScopeTree

open ScopeTree in
/-- One more access that crosses is noted. -/
theorem Scope.escaped_noteEscape {s : Scope} {as : List Asked}
    (h : s.escaped = Asked.summary as) (a : Asked) :
    (s.noteEscape a.key a.how.isWrite).escaped = Asked.summary (as ++ [a]) := by
  unfold noteEscape
  rw [h, Asked.any_key_summary, Asked.summary_concat]
  simp only [List.contains_iff_mem]
  split <;> rfl

/-- The keys that are noted keep their order, and a new one comes last. -/
theorem Scope.keys_noteEscape (s : Scope) (key : VariableKey) (isAssigned : Bool) :
    (s.noteEscape key isAssigned).escaped.map (·.key) =
      if key ∈ s.escaped.map (·.key) then s.escaped.map (·.key)
      else s.escaped.map (·.key) ++ [key] := by
  have hany : s.escaped.any (·.key == key) = true ↔ key ∈ s.escaped.map (·.key) := by
    simp [List.any_eq_true]
  unfold noteEscape
  by_cases hkey : key ∈ s.escaped.map (·.key)
  · rw [if_pos (hany.mpr hkey), if_pos hkey, List.map_map]
    apply List.map_congr_left
    intro e _
    dsimp only [Function.comp_apply]
    split <;> rfl
  · rw [if_neg (mt hany.mp hkey), if_neg hkey, List.map_append, List.map_singleton]

namespace ScopeTree

/-! ### What operations do to the list -/

/-- What a scope is, with the variables that escape into it. -/
def crossingState? (t : ScopeTree) (i : Nat) : Option (ScopeKind × List Escape) :=
  (t.scope? i).map fun s => (s.kind, s.escaped)

theorem crossingState?_modifyScope (t : ScopeTree) (i : Nat) (f : Scope → Scope)
    (hkind : ∀ s, (f s).kind = s.kind) (hescaped : ∀ s, (f s).escaped = s.escaped) (j : Nat) :
    (t.modifyScope i f).crossingState? j = t.crossingState? j :=
  map_scope?_modifyScope t i (fun s => Prod.ext (hkind s) (hescaped s)) j

theorem crossingState?_modifyVariable (t : ScopeTree) (slot : Slot)
    (f : VariableInfo → VariableInfo) (j : Nat) :
    (t.modifyVariable slot f).crossingState? j = t.crossingState? j :=
  crossingState?_modifyScope t slot.scope
    (fun s => { s with locals := s.locals.modify slot.index f }) (fun _ => rfl) (fun _ => rfl) j

theorem crossingState?_push (t : ScopeTree) (parent : Nat) (kind : ScopeKind) (j : Nat) :
    (t.push parent kind).2.crossingState? j =
      if j = t.scopes.length then some (kind, []) else t.crossingState? j := by
  rw [← crossingState?_modifyScope t parent
    (fun s => { s with children := s.children ++ [t.scopes.length] }) (fun _ => rfl)
    (fun _ => rfl) j]
  unfold crossingState?
  rw [scope?_push]
  split <;> rfl

theorem crossingState?_declare (t : ScopeTree) (i : Nat) (key : VariableKey) (d : Declaration)
    (j : Nat) : (t.declare i key d).2.crossingState? j = t.crossingState? j := by
  unfold declare
  split
  · rfl
  · exact crossingState?_modifyScope t i
      (fun s => { s with locals := s.locals ++ [{ key, declaration := d }] }) (fun _ => rfl)
      (fun _ => rfl) j

theorem crossingState?_resolve (t : ScopeTree) (start : Nat) (key : VariableKey) (j : Nat) :
    (t.resolve start key).2.crossingState? j = t.crossingState? j := by
  unfold resolve
  split
  · rfl
  · exact crossingState?_declare ..

theorem kind_noteEscape (s : Scope) (key : VariableKey) (isAssigned : Bool) :
    (s.noteEscape key isAssigned).kind = s.kind := by
  unfold Scope.noteEscape
  split <;> rfl

theorem scope?_noteEscapes (t : ScopeTree) (key : VariableKey) (isAssigned : Bool)
    {is : List Nat} (h : is.Nodup) (j : Nat) :
    (t.noteEscapes key isAssigned is).scope? j =
      if j ∈ is then (t.scope? j).map (·.noteEscape key isAssigned) else t.scope? j := by
  induction is generalizing t with
  | nil => rfl
  | cons i is ih =>
    obtain ⟨hi, his⟩ := List.nodup_cons.mp h
    rw [noteEscapes, ih _ his, scope?_modifyScope]
    by_cases hij : i = j
    · subst hij
      simp [hi]
    · simp [hij, Ne.symm hij]

theorem path_nodup (t : ScopeTree) (i : Nat) : (t.path i).Nodup ∧ ∀ j ∈ t.path i, j ≤ i := by
  induction i using Nat.strongRecOn with
  | ind i ih =>
    rw [path]
    split
    · simp
    next p _ =>
      split
      next hp =>
        obtain ⟨hnodup, hle⟩ := ih p hp
        refine ⟨List.nodup_cons.mpr ⟨fun hi => ?_, hnodup⟩, fun j hj => ?_⟩
        · have := hle i hi
          omega
        · rcases List.mem_cons.mp hj with rfl | hj
          · exact Nat.le_refl j
          · exact Nat.le_trans (hle j hj) (Nat.le_of_lt hp)
      · simp

theorem extractedUpTo_nodup (t : ScopeTree) (start : Nat) (slot : Slot) :
    (t.extractedUpTo start slot).Nodup :=
  ((t.path_nodup start).1.sublist (List.takeWhile_sublist _)).filter _

/-- The scopes at which an access is noted are those into which it crosses. -/
theorem mem_extractedUpTo_iff {t : ScopeTree} (ht : t.ParentsBelow) {a : Asked}
    (h : t.Inside a.start a.slot.scope) (i : Nat) :
    i ∈ t.extractedUpTo a.start a.slot ↔ t.isExtracted i = true ∧ a.crosses t i = true := by
  rw [extractedUpTo, List.mem_filter, mem_takeWhile_path ht h, and_comm]
  simp only [Asked.crosses, Bool.and_eq_true, bne_iff_ne, isWithin_iff ht, and_assoc]
  exact and_congr_right fun _ => and_congr_right fun _ => and_congr_right fun _ => ne_comm

theorem crosses_of_growth {t t' : ScopeTree} (h : t.links <+: t'.links) {a : Asked}
    (ha : a.start < t.scopes.length) {i : Nat} (hi : i < t.scopes.length) :
    a.crosses t' i = a.crosses t i := by
  rw [Asked.crosses, Asked.crosses, isWithin_of_growth h ha, isWithin_of_growth h hi]

/-- No scope lies within one that does not exist yet. -/
theorem isWithin_of_length_le {t : ScopeTree} {start i : Nat} (hstart : start < t.scopes.length)
    (hi : t.scopes.length ≤ i) : t.isWithin start i = false := by
  rw [← Bool.not_eq_true, isWithin, List.contains_iff_mem]
  intro hmem
  have := path_lt hstart i hmem
  omega

namespace Recorded

/-! ### Runs -/

/-- The access that an operation asks for. -/
def asks (r : Recorded) : Operation → List Asked
  | .access start key how => [⟨start, key, how, (r.tree.access start key how).1⟩]
  | _ => []

/-- The accesses of a run, in order. -/
def asked (r : Recorded) : List Operation → List Asked
  | [] => []
  | op :: ops => r.asks op ++ asked (r.step op) ops

/-- The lists of escaped variables sum up the accesses so far. -/
structure Noted (r : Recorded) (as : List Asked) : Prop where
  rooted : r.tree.Rooted
  starts : ∀ a ∈ as, a.start < r.tree.scopes.length
  crossing : ∀ i kind escaped, r.tree.crossingState? i = some (kind, escaped) →
    escaped = if kind = .extracted then Asked.summary (as.filter (·.crosses r.tree i)) else []

theorem lt_of_crossingState? {t : ScopeTree} {i : Nat} {kind : ScopeKind} {escaped : List Escape}
    (h : t.crossingState? i = some (kind, escaped)) : i < t.scopes.length := by
  obtain ⟨s, hs, -⟩ := Option.map_eq_some_iff.mp h
  exact (List.getElem?_eq_some_iff.mp hs).1

theorem filter_crosses_of_growth {r : Recorded} {as : List Asked} (h : r.Noted as)
    {t' : ScopeTree} (hlinks : r.tree.links <+: t'.links) {i : Nat} (hi : i < r.tree.scopes.length) :
    as.filter (·.crosses t' i) = as.filter (·.crosses r.tree i) :=
  List.filter_congr fun a ha => crosses_of_growth hlinks (h.starts a ha) hi

/-- What leaves all scopes and their lists alone keeps the lists right. -/
theorem Noted.of_links {r : Recorded} {as : List Asked} (h : r.Noted as) {r' : Recorded}
    (hlinks : r'.tree.links = r.tree.links)
    (hstate : ∀ i, r'.tree.crossingState? i = r.tree.crossingState? i) : r'.Noted as := by
  have hlength : r'.tree.scopes.length = r.tree.scopes.length := by
    rw [← length_links, ← length_links, hlinks]
  refine ⟨h.rooted.of_links hlinks, hlength ▸ h.starts, fun i kind escaped hi => ?_⟩
  rw [hstate] at hi
  have hprefix : r.tree.links <+: r'.tree.links := hlinks ▸ List.prefix_rfl
  rw [filter_crosses_of_growth h hprefix (lt_of_crossingState? hi)]
  exact h.crossing i kind escaped hi

theorem noted_push {r : Recorded} {as : List Asked} (h : r.Noted as) {parent : Nat}
    (hparent : parent < r.tree.scopes.length) (kind : ScopeKind) :
    (r.step (.push parent kind)).Noted as := by
  have hlinks := links_step r (.push parent kind)
  have hlength : (r.step (.push parent kind)).tree.scopes.length = r.tree.scopes.length + 1 :=
    length_push r.tree parent kind
  refine ⟨h.rooted.push hparent kind, fun a ha => ?_, fun i kind' escaped hi => ?_⟩
  · have := h.starts a ha
    omega
  · change (r.tree.push parent kind).2.crossingState? i = _ at hi
    rw [crossingState?_push] at hi
    split at hi
    next hnew =>
      cases hi
      have hnone : as.filter (·.crosses (r.step (.push parent kind)).tree i) = [] := by
        rw [List.filter_eq_nil_iff]
        intro a ha
        -- the new scope is on the way up from no older one
        rw [Asked.crosses, isWithin_of_growth hlinks (h.starts a ha),
          isWithin_of_length_le (h.starts a ha) (Nat.le_of_eq hnew.symm)]
        exact Bool.false_ne_true
      rw [hnone]
      split <;> rfl
    next hold =>
      rw [filter_crosses_of_growth h hlinks (lt_of_crossingState? hi)]
      exact h.crossing i kind' escaped hi

/-- What an access does to the list of a scope: it is noted there if it crosses. -/
theorem crossingState?_access {t : ScopeTree} (ht : t.Rooted) {start : Nat}
    (hstart : start < t.scopes.length) (key : VariableKey) (how : Access) {i : Nat}
    {kind : ScopeKind} {escaped : List Escape}
    (hi : (t.access start key how).2.crossingState? i = some (kind, escaped)) :
    ∃ s : Scope, t.crossingState? i = some (kind, s.escaped) ∧
      escaped =
        if kind = .extracted ∧ Asked.crosses t i ⟨start, key, how, (t.resolve start key).1⟩ then
          (s.noteEscape key how.isWrite).escaped
        else s.escaped := by
  -- an access resolves its variable first, which changes neither scopes nor lists
  have hlinks : t.links <+: (t.resolve start key).2.links :=
    (links_resolve t start key).symm ▸ List.prefix_rfl
  have hmem : i ∈ (t.resolve start key).2.extractedUpTo start (t.resolve start key).1 ↔
      t.isExtracted i = true ∧ Asked.crosses t i ⟨start, key, how, (t.resolve start key).1⟩ := by
    rw [extractedUpTo_of_growth hlinks hstart]
    exact mem_extractedUpTo_iff ht.parentsBelow (a := ⟨start, key, how, (t.resolve start key).1⟩)
      (inside_resolve ht hstart key) i
  rw [access_eq] at hi
  dsimp only at hi
  rw [crossingState?_modifyVariable, crossingState?,
    scope?_noteEscapes _ _ _ (extractedUpTo_nodup ..)] at hi
  have hresolved := crossingState?_resolve t start key i
  cases hs : (t.resolve start key).2.scope? i with
  | none => simp [hs] at hi
  | some s =>
    rw [crossingState?, hs, Option.map_some] at hresolved
    have hextracted : t.isExtracted i = true ↔ s.kind = .extracted := by
      obtain ⟨s', hs', heq⟩ := Option.map_eq_some_iff.mp hresolved.symm
      have hkind : s'.kind = s.kind := congrArg Prod.fst heq
      rw [isExtracted, hs', ← hkind]
      exact beq_iff_eq
    rw [hs] at hi
    refine ⟨s, ?_⟩
    split at hi
    next hin =>
      cases hi
      rw [kind_noteEscape, if_pos ⟨hextracted.mp (hmem.mp hin).1, (hmem.mp hin).2⟩]
      exact ⟨hresolved.symm, rfl⟩
    next hin =>
      cases hi
      rw [if_neg fun h => hin (hmem.mpr ⟨hextracted.mpr h.1, h.2⟩)]
      exact ⟨hresolved.symm, rfl⟩

theorem noted_access {r : Recorded} {as : List Asked} (h : r.Noted as) {start : Nat}
    (hstart : start < r.tree.scopes.length) (key : VariableKey) (how : Access) :
    (r.step (.access start key how)).Noted (as ++ r.asks (.access start key how)) := by
  have hlinks : (r.step (.access start key how)).tree.links = r.tree.links := links_access ..
  have hlength : (r.step (.access start key how)).tree.scopes.length = r.tree.scopes.length := by
    rw [← length_links, ← length_links, hlinks]
  have hprefix : r.tree.links <+: (r.step (.access start key how)).tree.links :=
    hlinks ▸ List.prefix_rfl
  have hstarts : ∀ a ∈ as ++ r.asks (.access start key how), a.start < r.tree.scopes.length := by
    intro a ha
    rcases List.mem_append.mp ha with ha | ha
    · exact h.starts a ha
    · rw [List.mem_singleton.mp ha]
      exact hstart
  refine ⟨h.rooted.of_links hlinks, hlength ▸ hstarts, fun i kind escaped hi => ?_⟩
  obtain ⟨s, hs, rfl⟩ := crossingState?_access h.rooted hstart key how hi
  have hold := h.crossing i kind s.escaped hs
  rw [List.filter_congr fun a ha =>
    crosses_of_growth hprefix (hstarts a ha) (lt_of_crossingState? hs), List.filter_append]
  by_cases hkind : kind = .extracted
  · rw [if_pos hkind] at hold ⊢
    cases hcross : Asked.crosses r.tree i ⟨start, key, how, (r.tree.resolve start key).1⟩ with
    | true =>
      have hone : (r.asks (.access start key how)).filter (·.crosses r.tree i) =
          [⟨start, key, how, (r.tree.resolve start key).1⟩] :=
        List.filter_cons_of_pos hcross
      rw [if_pos ⟨hkind, rfl⟩, hone]
      exact Scope.escaped_noteEscape hold ⟨start, key, how, (r.tree.resolve start key).1⟩
    | false =>
      have hnone : (r.asks (.access start key how)).filter (·.crosses r.tree i) = [] :=
        List.filter_cons_of_neg (by rw [Bool.not_eq_true]; exact hcross)
      rw [if_neg (fun hboth => Bool.false_ne_true hboth.2), hnone, List.append_nil]
      exact hold
  · rw [if_neg hkind] at hold ⊢
    rw [if_neg fun hboth => hkind hboth.1]
    exact hold

theorem noted_step {r : Recorded} {as : List Asked} (h : r.Noted as) {op : Operation}
    (hop : op.IsValid r.tree) : (r.step op).Noted (as ++ r.asks op) := by
  cases op with
  | push parent kind =>
    show Noted _ (as ++ [])
    rw [List.append_nil]
    exact noted_push h hop kind
  | declare scope key d =>
    show Noted _ (as ++ [])
    rw [List.append_nil]
    exact h.of_links (links_declare ..) (crossingState?_declare r.tree scope key d)
  | resolve start key =>
    show Noted _ (as ++ [])
    rw [List.append_nil]
    exact h.of_links (links_resolve ..) (crossingState?_resolve r.tree start key)
  | access start key how => exact noted_access h hop key how

theorem noted_run {r : Recorded} {as : List Asked} (h : r.Noted as) {ops : List Operation}
    (hops : r.IsValid ops) : (r.run ops).Noted (as ++ r.asked ops) := by
  induction ops generalizing r as with
  | nil => simpa [asked, run] using h
  | cons op ops ih =>
    rw [asked, ← List.append_assoc]
    exact ih (noted_step h hops.1) hops.2

theorem noted_start : ({} : Recorded).Noted [] := by
  refine ⟨rooted_start, by simp, fun i kind escaped hi => ?_⟩
  cases i with
  | zero =>
    cases hi
    rfl
  | succ i => cases hi

/-- The list of a method sums up the accesses that crossed into it. -/
theorem escaped_eq_summary {ops : List Operation} (h : ({} : Recorded).IsValid ops) {i : Nat}
    {s : Scope} (hs : (({} : Recorded).run ops).tree.scope? i = some s)
    (hkind : s.kind = .extracted) :
    s.escaped = Asked.summary
      ((({} : Recorded).asked ops).filter (·.crosses (({} : Recorded).run ops).tree i)) := by
  have hnoted := noted_run noted_start h
  rw [List.nil_append] at hnoted
  have hstate : (({} : Recorded).run ops).tree.crossingState? i = some (s.kind, s.escaped) := by
    rw [crossingState?, hs]
    rfl
  have hcrossing := hnoted.crossing i s.kind s.escaped hstate
  rwa [if_pos hkind] at hcrossing

/-- **What escapes into a method is what is accessed across its border.** The list of a method has
each variable once, in the order of the first access that came from within and found the variable
outside, and marks it as assigned exactly if some such access was a write. So what escapes into a
method by an access that finds it even outside a method around that one escapes into the outer one
too, and is assigned there if the access was a write. -/
theorem escaped_iff_crossing (ops : List Operation) (h : ({} : Recorded).IsValid ops) (i : Nat)
    (s : Scope) (hs : (({} : Recorded).run ops).tree.scope? i = some s)
    (hkind : s.kind = .extracted) :
    let t := (({} : Recorded).run ops).tree
    let crossing := (({} : Recorded).asked ops).filter (·.crosses t i)
    (s.escaped.map (·.key)).Nodup ∧
      s.escaped.map (·.key) = (crossing.map (·.key)).eraseDups ∧
      (∀ e ∈ s.escaped,
        e.isAssigned = true ↔ ∃ a ∈ crossing, a.key = e.key ∧ a.how.isWrite = true) ∧
      ∀ outer s', t.Inside i outer → t.scope? outer = some s' → s'.kind = .extracted →
        ∀ a ∈ crossing, t.Inside outer a.slot.scope → a.slot.scope ≠ outer →
          ∃ e ∈ s'.escaped, e.key = a.key ∧ (a.how.isWrite = true → e.isAssigned = true) := by
  intro t crossing
  have hescaped : s.escaped = Asked.summary crossing := escaped_eq_summary h hs hkind
  have hparents : t.ParentsBelow := (noted_run noted_start h).rooted.parentsBelow
  refine ⟨?_, ?_, fun e he => ?_, fun outer s' hin hs' hkind' a ha hout hne => ?_⟩
  · rw [hescaped, Asked.keys_summary]
    exact Asked.nodup_eraseDups _
  · rw [hescaped, Asked.keys_summary]
  · rw [hescaped] at he
    exact Asked.isAssigned_iff_of_mem_summary he
  · obtain ⟨hasked, hcross⟩ := List.mem_filter.mp ha
    have hstart : t.Inside a.start outer := by
      simp only [Asked.crosses, Bool.and_eq_true] at hcross
      exact ((isWithin_iff hparents _ _).mp hcross.1.1).trans hin
    have hcross' : a.crosses t outer = true := by
      simp [Asked.crosses, isWithin_iff hparents, hstart, hout, hne]
    rw [escaped_eq_summary h hs' hkind']
    exact Asked.exists_mem_summary (List.mem_filter.mpr ⟨hasked, hcross'⟩)

/-- Two methods, one within the other: `x` belongs to the block around both, `y` to the outer
method. -/
def nestedMethods : List Operation :=
  let x : VariableKey := ⟨.int, "x"⟩
  let y : VariableKey := ⟨.int, "y"⟩
  [.push 0 .block, .declare 1 x .inList, .push 1 .extracted, .push 2 .block, .declare 3 y .inList,
    .push 3 .extracted, .push 4 .block, .access 5 y (.assignment 9 true),
    .access 5 x (.output true), .access 5 y (.reference false), .access 3 x (.reference false)]

theorem escaped_nestedMethods :
    let x : VariableKey := ⟨.int, "x"⟩
    let t := (({} : Recorded).run nestedMethods).tree
    let inner : Scope := ⟨.extracted, some 3, [5], [], [⟨⟨.int, "y"⟩, true⟩, ⟨x, true⟩]⟩
    ({} : Recorded).IsValid nestedMethods ∧ t.scope? 4 = some inner ∧ t.Inside 4 2 ∧
      ∃ s', t.scope? 2 = some s' ∧ ∃ e ∈ s'.escaped, e.key = x ∧ e.isAssigned = true := by
  intro x t inner
  have hvalid : ({} : Recorded).IsValid nestedMethods := by decide +kernel
  have hinner : t.scope? 4 = some inner := by decide +kernel
  have hup : t.Inside 4 2 :=
    .up (p := 3) (by decide +kernel) (.up (p := 2) (by decide +kernel) (.refl 2))
  have hroot : t.Inside 2 1 := .up (p := 1) (by decide +kernel) (.refl 1)
  refine ⟨hvalid, hinner, hup, ?_⟩
  have hcrossing := (escaped_iff_crossing nestedMethods hvalid 4 inner hinner rfl).2.2.2 2
  have houter : t.scope? 2 = some ⟨.extracted, some 1, [3], [], [⟨x, true⟩]⟩ := by decide +kernel
  obtain ⟨e, he, hkey, hassigned⟩ := hcrossing _ hup houter rfl ⟨5, x, .output true, ⟨1, 0⟩⟩
    (by decide +kernel) hroot (by decide)
  exact ⟨_, houter, e, he, hkey, hassigned rfl⟩

end Recorded
end ScopeTree
end TreeScribe
