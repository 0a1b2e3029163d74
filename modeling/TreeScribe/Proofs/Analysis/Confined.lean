import TreeScribe.Proofs.Analysis.Extracted
import TreeScribe.Proofs.Scope.Uses

/-! What a visit leaves alone.

A visit ends in the scope in which it started. It puts new scopes within that one, and of the old scopes it
touches only that one and those around it. No old scope loses a variable or has it moved; a variable that is
free in what is visited, and that no scope around declares, may come to the root. All this holds of every
single move, is kept from one move to the next, and is kept where a scope is opened and left again
(`Survey.Confined`), so that it holds of every visit (`Visit.confined_tree`). -/
namespace TreeScribe

namespace ScopeTree

/-! ### Scopes that an operation does not touch -/

theorem scope?_declare_of_ne (t : ScopeTree) {i j : Nat} (hij : j ≠ i) (key : VariableKey)
    (d : Declaration) : (t.declare i key d).2.scope? j = t.scope? j := by
  unfold declare
  split
  · rfl
  · exact (scope?_modifyScope ..).trans (if_neg (Ne.symm hij))

theorem scope?_declareAll_of_ne (t : ScopeTree) {i j : Nat} (hij : j ≠ i) (vs : List Variable)
    (d : Declaration) : (t.declareAll i vs d).scope? j = t.scope? j := by
  induction vs generalizing t with
  | nil => rfl
  | cons v vs ih => exact (ih _).trans (scope?_declare_of_ne t hij v.key d)

theorem scope?_push_of_ne (t : ScopeTree) {parent j : Nat} (hparent : j ≠ parent)
    (hj : j < t.scopes.length) (kind : ScopeKind) : (t.push parent kind).2.scope? j = t.scope? j := by
  rw [scope?_push, if_neg (Nat.ne_of_lt hj), scope?_modifyScope, if_neg (Ne.symm hparent)]

/-- An access touches only the scope that it comes from and those around it. -/
theorem scope?_access_of_not_inside {t : ScopeTree} (ht : t.Rooted) {start : Nat}
    (hstart : start < t.scopes.length) (key : VariableKey) (how : Access) {i : Nat}
    (hi : ¬t.Inside start i) : (t.access start key how).2.scope? i = t.scope? i := by
  have hroot : i ≠ rootScope := by
    rintro rfl
    exact hi (ht.inside_root hstart)
  have hresolve : (t.resolve start key).2.scope? i = t.scope? i := by
    unfold resolve
    split
    · rfl
    · exact scope?_declare_of_ne t hroot key .undeclared
  have hslot : (t.resolve start key).1.scope ≠ i := by
    rintro rfl
    exact hi (inside_resolve ht hstart key)
  have hescapes : i ∉ (t.resolve start key).2.extractedUpTo start (t.resolve start key).1 := by
    intro hmem
    have hpath := List.takeWhile_subset _ (List.mem_of_mem_filter hmem)
    rw [path_of_growth ((links_resolve t start key).symm ▸ List.prefix_rfl) hstart] at hpath
    exact hi ((mem_path_iff ht.parentsBelow start i).mp hpath)
  rw [access_eq]
  dsimp only
  rw [modifyVariable, scope?_modifyScope, if_neg hslot, scope?_noteEscapes _ _ _ (extractedUpTo_nodup ..),
    if_neg hescapes, hresolve]

/-- An access adds at most the variable that is accessed, to the root, if no scope around declares it. -/
theorem exists_keys?_access {t : ScopeTree} (ht : t.Rooted) {start : Nat}
    (hstart : start < t.scopes.length) (key : VariableKey) (how : Access) (i : Nat) :
    ∃ added, (t.access start key how).2.keys? i = (t.keys? i).map (· ++ added) ∧
      ∀ k ∈ added, i = rootScope ∧ k = key ∧ ∀ j, t.Inside start j → ¬t.Declares j k := by
  rw [keys?_access]
  unfold resolve
  split
  next => exact ⟨[], by simp, nofun⟩
  next hfind =>
    have hclear := fun j => not_declares_of_find? (j := j) ht.parentsBelow hfind
    rw [keys?_declare]
    by_cases hi : i = rootScope
    · refine ⟨[key], ?_, fun k hk => ?_⟩
      · rw [if_pos hi, hi]
        cases hkeys : t.keys? rootScope with
        | none => rfl
        | some keys =>
          have hnew : key ∉ keys := fun hmem =>
            hclear rootScope (ht.inside_root hstart) ⟨keys, hkeys, hmem⟩
          simp [hnew]
      · rw [List.mem_singleton.mp hk]
        exact ⟨hi, rfl, hclear⟩
    · exact ⟨[], by simp [hi], nofun⟩

/-- A variable that is declared nowhere stays so, and so is one that an access makes. -/
theorem declaration_access {t : ScopeTree} {start : Nat} (hstart : start < t.scopes.length)
    (key : VariableKey) (how : Access) {slot : Slot} {v : VariableInfo}
    (hv : (t.access start key how).2.info? slot = some v) :
    v.declaration = .undeclared ∨ ∃ old, t.info? slot = some old ∧ old.declaration ≠ .undeclared := by
  have hresolved {v : VariableInfo} (hv : (t.resolve start key).2.info? slot = some v) :
      v.declaration = .undeclared ∨ t.info? slot = some v := by
    rcases resolve_cases t (Nat.zero_lt_of_lt hstart) start key with ⟨-, -, -, heq⟩ | ⟨-, hinfo⟩
    · exact .inr (heq ▸ hv)
    · rw [hinfo] at hv
      split at hv
      · cases hv
        exact .inl rfl
      · exact .inr hv
  have hsettled {w : VariableInfo} (hw : (t.resolve start key).2.info? slot = some w)
      (hnot : w.declaration ≠ .undeclared) :
      ∃ old, t.info? slot = some old ∧ old.declaration ≠ .undeclared :=
    ⟨w, (hresolved hw).resolve_left hnot, hnot⟩
  rw [Recorded.info?_access t start key how hstart] at hv
  dsimp only at hv
  split at hv
  · obtain ⟨w, hw, rfl⟩ := Option.map_eq_some_iff.mp hv
    by_cases hundeclared : w.declaration = .undeclared
    · rw [Access.applied_undeclared _ _ _ _ hundeclared]
      exact .inl hundeclared
    · exact .inr (hsettled hw hundeclared)
  · by_cases hundeclared : v.declaration = .undeclared
    · exact .inl hundeclared
    · exact .inr (hsettled hv hundeclared)

end ScopeTree

open ScopeTree

namespace Survey

/-! ### What happens between two surveys -/

/-- From the one survey to the other, nothing happens but in the current scope, around it and in new scopes
within it, and what is accessed outside of these has one of the keys. -/
structure Confined (mode : AnalysisMode) (keys : List VariableKey) (s s' : Survey) : Prop where
  grows : s.Extends s'
  sound : s'.IsSound mode
  inside : ∀ j, s.analysis.scopes.scopes.length ≤ j → j < s'.analysis.scopes.scopes.length →
    s'.analysis.scopes.Inside j s.current
  /-- Variables stay in their order; others may come to the root. -/
  appended : ∀ i, i < s.analysis.scopes.scopes.length →
    ∃ added, s'.analysis.scopes.keys? i = (s.analysis.scopes.keys? i).map (· ++ added) ∧
      ∀ key ∈ added, i = rootScope ∧ key ∈ keys ∧
        ∀ j, s.analysis.scopes.Inside s.current j → ¬s.analysis.scopes.Declares j key
  /-- Those that come are not declared. -/
  settled : ∀ i j v, i < s.analysis.scopes.scopes.length → s'.analysis.scopes.info? ⟨i, j⟩ = some v →
    v.declaration = .undeclared ∨
      ∃ old, s.analysis.scopes.info? ⟨i, j⟩ = some old ∧ old.declaration ≠ .undeclared
  untouched : ∀ i, i < s.analysis.scopes.scopes.length → ¬s.analysis.scopes.Inside s.current i →
    s'.analysis.scopes.scope? i = s.analysis.scopes.scope? i

namespace Confined

variable {mode : AnalysisMode} {keys keys' : List VariableKey} {s s' s'' : Survey}

theorem of_scopes (hs : s.IsSound mode) (hcurrent : s'.current = s.current)
    (hmode : s'.analysis.mode = s.analysis.mode) (hscopes : s'.analysis.scopes = s.analysis.scopes) :
    Confined mode [] s s' := by
  have hgrows : s.Extends s' := .of_links hcurrent hmode (by rw [hscopes])
  refine ⟨hgrows, hgrows.isSound hs (hscopes ▸ hs.rooted), fun j hj hlt => ?_,
    fun i hi => ⟨[], by simp [hscopes], nofun⟩, fun i j v hi hv => ?_, fun i hi _ => by rw [hscopes]⟩
  · rw [hscopes] at hlt
    omega
  · rw [hscopes] at hv
    by_cases hundeclared : v.declaration = .undeclared
    · exact .inl hundeclared
    · exact .inr ⟨v, hv, hundeclared⟩

theorem access (hs : s.IsSound mode) (v : Variable) (how : Access) (hcurrent : s'.current = s.current)
    (hmode : s'.analysis.mode = s.analysis.mode)
    (hscopes : s'.analysis.scopes = (s.analysis.scopes.access s.current v.key how).2) :
    Confined mode [v.key] s s' := by
  have hlinks : s'.analysis.scopes.links = s.analysis.scopes.links := by rw [hscopes, links_access]
  have hlength : s'.analysis.scopes.scopes.length = s.analysis.scopes.scopes.length := by
    rw [← length_links, hlinks, length_links]
  have hgrows : s.Extends s' := .of_links hcurrent hmode hlinks
  refine ⟨hgrows, hgrows.isSound hs (hs.rooted.of_links hlinks), fun j hj hlt => ?_, fun i _ => ?_,
    fun i j w _ hw => ?_, fun i _ hi => ?_⟩
  · omega
  · obtain ⟨added, hadded, hfree⟩ := exists_keys?_access hs.rooted hs.current v.key how i
    refine ⟨added, hscopes ▸ hadded, fun key hkey => ?_⟩
    obtain ⟨hroot, heq, hclear⟩ := hfree key hkey
    exact ⟨hroot, List.mem_singleton.mpr heq, hclear⟩
  · rw [hscopes] at hw
    exact declaration_access hs.current v.key how hw
  · rw [hscopes]
    exact scope?_access_of_not_inside hs.rooted hs.current v.key how hi

theorem congr (h : Confined mode keys s s') (hkeys : ∀ key, key ∈ keys ↔ key ∈ keys') :
    Confined mode keys' s s' := by
  refine ⟨h.grows, h.sound, h.inside, fun i hi => ?_, h.settled, h.untouched⟩
  obtain ⟨added, hadded, hfree⟩ := h.appended i hi
  refine ⟨added, hadded, fun key hkey => ?_⟩
  obtain ⟨hroot, hmem, hclear⟩ := hfree key hkey
  exact ⟨hroot, (hkeys key).mp hmem, hclear⟩

theorem length_le (h : Confined mode keys s s') :
    s.analysis.scopes.scopes.length ≤ s'.analysis.scopes.scopes.length :=
  length_le_of_growth h.grows.links

/-- What is around the current scope stays around it. -/
theorem inside_iff (hs : s.IsSound mode) (h : Confined mode keys s s') {i : Nat}
    (hi : i < s.analysis.scopes.scopes.length) (j : Nat) :
    s'.analysis.scopes.Inside i j ↔ s.analysis.scopes.Inside i j :=
  ScopeTree.inside_of_growth hs.rooted.parentsBelow h.sound.rooted.parentsBelow h.grows.links hi j

/-- What a scope declares it goes on to declare. -/
theorem declares (h : Confined mode keys s s') {i : Nat} {key : VariableKey}
    (hkey : s.analysis.scopes.Declares i key) : s'.analysis.scopes.Declares i key := by
  obtain ⟨added, hadded, -⟩ := h.appended i hkey.lt
  obtain ⟨old, hold, hmem⟩ := hkey
  exact ⟨old ++ added, by rw [hadded, hold]; rfl, List.mem_append_left _ hmem⟩

theorem trans (hs : s.IsSound mode) (h : Confined mode keys s s') (h' : Confined mode keys' s' s'') :
    Confined mode (keys ++ keys') s s'' := by
  have hle := h.length_le
  refine ⟨h.grows.trans h'.grows, h'.sound, fun j hj hlt => ?_, fun i hi => ?_, fun i j v hi hv => ?_,
    fun i hi hnot => ?_⟩
  · by_cases hold : j < s'.analysis.scopes.scopes.length
    · exact (h'.inside_iff h.sound hold _).mpr (h.inside j hj hold)
    · rw [← h.grows.current]
      exact h'.inside j (Nat.le_of_not_lt hold) hlt
  · obtain ⟨added, hadded, hfree⟩ := h.appended i hi
    obtain ⟨added', hadded', hfree'⟩ := h'.appended i (Nat.lt_of_lt_of_le hi hle)
    refine ⟨added ++ added', ?_, fun key hkey => ?_⟩
    · rw [hadded', hadded, Option.map_map]
      simp only [Function.comp_def, List.append_assoc]
    · rcases List.mem_append.mp hkey with hkey | hkey
      · obtain ⟨hroot, hmem, hclear⟩ := hfree key hkey
        exact ⟨hroot, List.mem_append_left _ hmem, hclear⟩
      · obtain ⟨hroot, hmem, hclear⟩ := hfree' key hkey
        refine ⟨hroot, List.mem_append_right _ hmem, fun j hj hdeclares => ?_⟩
        refine hclear j ?_ (h.declares hdeclares)
        rw [h.grows.current]
        exact (h.inside_iff hs hs.current j).mpr hj
  · rcases h'.settled i j v (Nat.lt_of_lt_of_le hi hle) hv with hundeclared | ⟨w, hw, hdeclared⟩
    · exact .inl hundeclared
    · exact .inr ((h.settled i j w hi hw).resolve_left hdeclared)
  · rw [h'.untouched i (Nat.lt_of_lt_of_le hi hle), h.untouched i hi hnot]
    rw [h.grows.current]
    exact fun hin => hnot ((h.inside_iff hs hs.current i).mp hin)

end Confined

/-! ### Scopes that are opened -/

variable {mode : AnalysisMode} {s : Survey}

theorem scope?_entered_of_ne (s : Survey) (owner : Owner) (declared : List Variable) {i : Nat}
    (hi : i < s.analysis.scopes.scopes.length) (hcurrent : i ≠ s.current) :
    (s.entered owner declared).analysis.scopes.scope? i = s.analysis.scopes.scope? i :=
  (scope?_declareAll_of_ne _ (Nat.ne_of_lt hi) declared owner.declaration).trans
    (scope?_push_of_ne _ hcurrent hi owner.kind)

/-- **What is confined to a new scope is confined to the one around it**, and the variables of the new scope
are not accessed outside. -/
theorem Confined.opened {keys : List VariableKey} (hs : s.IsSound mode) (owner : Owner)
    (declared : List Variable) {inner : Survey} (h : Confined mode keys (s.entered owner declared) inner) :
    Confined mode (unbound declared keys) s (s.left inner) := by
  have hleft := h.grows.left owner declared
  have hentered := hs.entered owner declared
  have hlength := s.length_entered owner declared
  have hnew : s.analysis.scopes.scopes.length < (s.entered owner declared).analysis.scopes.scopes.length := by
    omega
  have hup {j : Nat} := s.inside_entered hs owner declared (j := j)
  refine ⟨hleft, hleft.isSound hs h.sound.rooted, fun j hj hlt => ?_, fun i hi => ?_,
    fun i j v hi hv => ?_, fun i hi hnot => ?_⟩
  · -- the new scope hangs from the current one, and the others are within the new scope
    have hself : inner.analysis.scopes.Inside s.analysis.scopes.scopes.length s.current :=
      (h.inside_iff hentered hnew _).mpr (hup.mpr (.inr (.refl _)))
    by_cases hold : j < (s.entered owner declared).analysis.scopes.scopes.length
    · obtain rfl : j = s.analysis.scopes.scopes.length := by omega
      exact hself
    · exact (h.inside j (Nat.le_of_not_lt hold) hlt).trans hself
  · obtain ⟨added, hadded, hfree⟩ := h.appended i (Nat.lt_trans hi hnew)
    rw [s.keys?_entered owner declared (Nat.ne_of_lt hi)] at hadded
    refine ⟨added, hadded, fun key hkey => ?_⟩
    obtain ⟨hroot, hmem, hclear⟩ := hfree key hkey
    refine ⟨hroot, mem_unbound.mpr ⟨hmem, fun v hv heq => ?_⟩, fun j hj hdeclares => ?_⟩
    · exact hclear _ (.refl _) ((s.declares_entered owner declared key).mpr ⟨v, hv, heq⟩)
    · refine hclear j (hup.mpr (.inr hj)) ?_
      unfold Declares
      rwa [s.keys?_entered owner declared (Nat.ne_of_lt hdeclares.lt)]
  · rw [← s.info?_entered owner declared hi]
    exact h.settled i j v (Nat.lt_trans hi hnew) hv
  · have hcurrent : i ≠ s.current := by
      rintro rfl
      exact hnot (.refl _)
    have hout : ¬(s.entered owner declared).analysis.scopes.Inside (s.entered owner declared).current i := by
      intro hin
      exact (hup.mp hin).elim (Nat.ne_of_lt hi) hnot
    exact (h.untouched i (Nat.lt_trans hi hnew) hout).trans (s.scope?_entered_of_ne owner declared hi hcurrent)

end Survey

/-! ### The visit of a tree -/

namespace Visit

variable {settings : Settings} {mode : AnalysisMode}

mutual

theorem confined_perform : (m : Move) →
    (∀ c ∈ m.visits, ∀ s : Survey, s.IsSound mode →
      s.Confined mode (c.1.free settings) ((tree settings c.1 c.2).after s)) →
    ∀ s : Survey, s.IsSound mode → s.Confined mode (m.free settings) ((perform settings m).after s)
  | .child e position, hvisits, s, hs => hvisits (e, position) (List.mem_singleton_self _) s hs
  | .note t, _, s, hs => by
    obtain ⟨hcurrent, hmode, hscopes⟩ := @after_noteType settings t s
    exact .of_scopes hs hcurrent hmode hscopes
  | .jump target, _, s, hs => .of_scopes hs rfl rfl rfl
  | .reference v isAssigned, _, s, hs => .access hs v (.reference isAssigned) rfl rfl rfl
  | .assignment node v isStatement isTyped, _, s, hs =>
    .access hs v (.assignment node isStatement) rfl rfl rfl
  | .output node v, _, s, hs => .access hs v (.output (settings.choice .inlineOutputs)) rfl rfl rfl
  | .scope owner declared moves, hvisits, s, hs => by
    rw [perform, after_opened]
    exact (confined_performAll moves hvisits _ (hs.entered owner declared)).opened hs owner declared

theorem confined_performAll : (ms : List Move) →
    (∀ c ∈ Move.visitsAll ms, ∀ s : Survey, s.IsSound mode →
      s.Confined mode (c.1.free settings) ((tree settings c.1 c.2).after s)) →
    ∀ s : Survey, s.IsSound mode →
      s.Confined mode (Move.freeAll settings ms) ((performAll settings ms).after s)
  | [], _, s, hs => .of_scopes hs rfl rfl rfl
  | m :: ms, hvisits, s, hs => by
    have hfirst := confined_perform m (fun c hc => hvisits c (List.mem_append_left _ hc)) s hs
    have hrest := confined_performAll ms (fun c hc => hvisits c (List.mem_append_right _ hc)) _ hfirst.sound
    exact hfirst.trans hs hrest

end

/-- **A visit is confined to the scopes around it and to new ones**, in whatever position it is made. -/
theorem confined_tree (e : Expr) (position : Position) (s : Survey) (hs : s.IsSound mode) :
    s.Confined mode (e.free settings) ((tree settings e position).after s) := by
  induction e using Node.induction generalizing position s with
  | h node f ih =>
    rw [after_tree, hs.mode]
    refine (confined_performAll _ ?_ s hs).congr (Moves.mem_free_ofForm settings mode node f position)
    rintro ⟨c, q⟩ hc s hs
    exact ih c (Moves.mem_children_of_visits settings mode hc) q s hs

end Visit

/-! ### Surveys under way -/

/-- A survey that may be in hand when a visit comes to a node: it starts at the root, goes on by moves, and
enters scopes. -/
inductive Survey.Reached (settings : Settings) (mode : AnalysisMode) : Survey → Prop where
  | start : Reached settings mode (.start mode)
  | moved {s : Survey} (m : Move) : Reached settings mode s →
    Reached settings mode ((Visit.perform settings m).after s)
  | entered {s : Survey} (owner : Owner) (declared : List Variable) : Reached settings mode s →
    Reached settings mode (s.entered owner declared)

variable {settings : Settings} {mode : AnalysisMode} {s : Survey}

theorem Survey.Reached.isSound (h : s.Reached settings mode) : s.IsSound mode := by
  induction h with
  | start => exact Survey.isSound_start mode
  | moved m _ ih => exact (Visit.confined_perform m (fun c _ => Visit.confined_tree c.1 c.2) _ ih).sound
  | entered owner declared _ ih => exact ih.entered owner declared

/-- **What a visit leaves alone.** A visit of a tree in any position, be it that of a root, of a body or of a
node further in, ends in the scope in which it started, and all new scopes are within that one. The scopes
there were keep their kind, their parent and the order of their variables; the root may get others, which are
free in the tree, are declared by no scope around the visit, and are not declared at all. What lies neither at
the visit nor around it stays just as it was. -/
theorem Visit.leaves_alone (h : s.Reached settings mode) (e : Expr) (position : Position) :
    let s' := (tree settings e position).after s
    let t := s.analysis.scopes
    let t' := s'.analysis.scopes
    s'.current = s.current ∧
      (∀ j, t.scopes.length ≤ j → j < t'.scopes.length → t'.isWithin j s.current) ∧
      (∀ i old, t.scope? i = some old → ∃ new added, t'.scope? i = some new ∧
        new.kind = old.kind ∧ new.parent = old.parent ∧
        new.locals.map (·.key) = old.locals.map (·.key) ++ added ∧
        (∀ key ∈ added, i = rootScope ∧ key ∈ e.free settings ∧
          ∀ j, t.isWithin s.current j → ¬t.Declares j key) ∧
        ∀ j v, old.locals.length ≤ j → new.locals[j]? = some v → v.declaration = .undeclared) ∧
      ∀ i, i < t.scopes.length → ¬t.isWithin s.current i → t'.scope? i = t.scope? i := by
  intro s' t t'
  have hs := h.isSound
  have hconfined : s.Confined mode (e.free settings) s' := confined_tree e position s hs
  have hwithin (i j : Nat) : t.isWithin i j = true ↔ t.Inside i j := isWithin_iff hs.rooted.parentsBelow i j
  refine ⟨hconfined.grows.current, fun j hj hlt => ?_, fun i old hold => ?_, fun i hi hnot => ?_⟩
  · exact (isWithin_iff hconfined.sound.rooted.parentsBelow j s.current).mpr (hconfined.inside j hj hlt)
  · have hi : i < t.scopes.length := (List.getElem?_eq_some_iff.mp hold).1
    obtain ⟨new, hnew, hkind, hparent⟩ := exists_scope?_of_growth hconfined.grows.links hold
    obtain ⟨added, hadded, hfree⟩ := hconfined.appended i hi
    have hkeys : some (new.locals.map (·.key)) = some (old.locals.map (·.key) ++ added) := by
      unfold keys? at hadded
      rwa [hnew, hold] at hadded
    refine ⟨new, added, hnew, hkind, hparent, Option.some.inj hkeys, fun key hkey => ?_, fun j v hj hv => ?_⟩
    · obtain ⟨hroot, hmem, hclear⟩ := hfree key hkey
      exact ⟨hroot, hmem, fun j hj => hclear j ((hwithin _ _).mp hj)⟩
    · have hinfo : t'.info? ⟨i, j⟩ = some v := by
        unfold info?
        rw [hnew]
        exact hv
      rcases hconfined.settled i j v hi hinfo with hundeclared | ⟨w, hw, -⟩
      · exact hundeclared
      · unfold info? at hw
        rw [hold] at hw
        exact absurd (List.getElem?_eq_some_iff.mp hw).1 (Nat.not_lt.mpr hj)
  · exact hconfined.untouched i hi fun hin => hnot ((hwithin _ _).mpr hin)

/-- Inside a lambda in a block, a variable that nobody declares is assigned one of the block. -/
theorem Visit.leaves_alone_lambda :
    let x : Variable := { name := "x", ty := .int }
    let y : Variable := { name := "y", ty := .int }
    let branch : Move := .scope (.body .branch) [] []
    let s := ((perform {} branch).after ((Survey.start .source).entered (.block 1) [x])).entered (.lambda 2) []
    let e : Expr := .mk 3 (.binary .assign (.mk 4 (.parameter y)) (.mk 5 (.parameter x)) .int none)
    let t := s.analysis.scopes
    let t' := ((tree {} e .statement).after s).analysis.scopes
    s.Reached {} .source ∧ ((tree {} e .statement).after s).current = 3 ∧
      t'.scope? 2 = t.scope? 2 ∧
      ∃ new added, t'.scope? rootScope = some new ∧ new.locals.map (·.key) = added ∧
        added = [y.key] ∧ ∀ key ∈ added, key ∈ e.free {} := by
  intro x y branch s e t t'
  have hreached : s.Reached {} .source := ((Survey.Reached.start.entered (.block 1) [x]).moved branch).entered
    (.lambda 2) []
  obtain ⟨hcurrent, -, hold, huntouched⟩ := leaves_alone hreached e .statement
  have hroot : t.scope? rootScope = some ⟨.root, none, [1], [], []⟩ := by rfl
  obtain ⟨new, added, hnew, -, -, hkeys, hfree, -⟩ := hold rootScope _ hroot
  refine ⟨hreached, hcurrent, huntouched 2 (by decide +kernel) (by decide +kernel), new, added, hnew, hkeys, ?_,
    fun key hkey => (hfree key hkey).2.1⟩
  have hafter : (t'.scope? rootScope).map (fun s => s.locals.map (·.key)) = some [y.key] := by decide +kernel
  rw [hnew] at hafter
  exact hkeys.symm.trans (Option.some.inj hafter)

end TreeScribe
