import TreeScribe.Proofs.Analysis.Free

/-! The blocks that become methods.

In a method body, a visit takes out the blocks that it meets as values and that are not transparent,
and no others. What escapes from the scope of such a block are the variables that are free in it, and
each of these is declared by a scope around it or is free in the whole body (`Visit.uses_tree`). -/
namespace TreeScribe

/-! ### Escaped keys -/

namespace ScopeTree

def escapedKeys (t : ScopeTree) (i : Nat) : List VariableKey :=
  ((t.crossingState? i).map fun s => s.2.map (·.key)).getD []

theorem mem_keys_noteEscape (s : Scope) (key : VariableKey) (isAssigned : Bool) (k : VariableKey) :
    k ∈ (s.noteEscape key isAssigned).escaped.map (·.key) ↔ k ∈ s.escaped.map (·.key) ∨ k = key := by
  rw [s.keys_noteEscape]
  split
  next hkey =>
    refine ⟨.inl, fun hk => hk.elim id ?_⟩
    rintro rfl
    exact hkey
  · rw [List.mem_append, List.mem_singleton]

theorem crosses_iff {t : ScopeTree} (ht : t.Rooted) {start : Nat} (hstart : start < t.scopes.length)
    (key : VariableKey) (how : Access) {i : Nat} (hi : i ≠ rootScope) :
    Asked.crosses t i ⟨start, key, how, (t.resolve start key).1⟩ = true ↔ t.Clear key start i := by
  rw [← crosses_resolve_iff ht key hi hstart]
  simp only [Asked.crosses, Bool.and_eq_true, bne_iff_ne, isWithin_iff ht.parentsBelow, and_assoc]

theorem exists_of_isExtracted {t : ScopeTree} {i : Nat} (h : t.isExtracted i = true) :
    ∃ s, t.scope? i = some s ∧ s.kind = .extracted := by
  unfold isExtracted at h
  split at h
  next s hs => exact ⟨s, hs, eq_of_beq h⟩
  · cases h

theorem lt_of_isExtracted {t : ScopeTree} {i : Nat} (h : t.isExtracted i = true) :
    i < t.scopes.length := by
  obtain ⟨s, hs, -⟩ := exists_of_isExtracted h
  exact (List.getElem?_eq_some_iff.mp hs).1

/-- An access escapes from a method exactly if nothing on the way there declares its variable. -/
theorem mem_escapedKeys_access {t : ScopeTree} (ht : t.Rooted) {start : Nat}
    (hstart : start < t.scopes.length) (key : VariableKey) (how : Access) {i : Nat}
    (hroot : i ≠ rootScope) (hi : t.isExtracted i = true) (k : VariableKey) :
    k ∈ (t.access start key how).2.escapedKeys i ↔
      k ∈ t.escapedKeys i ∨ k ∈ [key] ∧ t.Clear k start i := by
  have hlinks : t.links <+: (t.access start key how).2.links :=
    (links_access ..).symm ▸ List.prefix_rfl
  obtain ⟨s, hs, hkind⟩ := exists_of_isExtracted
    ((isExtracted_of_growth hlinks (lt_of_isExtracted hi)).trans hi)
  have hstate : (t.access start key how).2.crossingState? i = some (s.kind, s.escaped) := by
    rw [crossingState?, hs]
    rfl
  obtain ⟨before, hbefore, hescaped⟩ := Recorded.crossingState?_access ht hstart key how hstate
  have hcrosses := crosses_iff ht hstart key how hroot
  rw [escapedKeys, hstate, escapedKeys, hbefore, hescaped]
  simp only [Option.map_some, Option.getD_some, List.mem_singleton]
  split
  next h =>
    rw [mem_keys_noteEscape]
    refine or_congr_right ⟨?_, And.left⟩
    rintro rfl
    exact ⟨rfl, hcrosses.mp h.2⟩
  next h =>
    refine ⟨.inl, fun hk => hk.elim id ?_⟩
    rintro ⟨rfl, hclear⟩
    exact absurd ⟨hkind, hcrosses.mpr hclear⟩ h

theorem escapedKeys_push (t : ScopeTree) (parent : Nat) (kind : ScopeKind) (i : Nat) :
    (t.push parent kind).2.escapedKeys i = if i = t.scopes.length then [] else t.escapedKeys i := by
  unfold escapedKeys
  rw [crossingState?_push]
  split <;> rfl

theorem escapedKeys_declareAll (t : ScopeTree) (scope : Nat) (vs : List Variable) (d : Declaration)
    (i : Nat) : (t.declareAll scope vs d).escapedKeys i = t.escapedKeys i := by
  have hstate : (t.declareAll scope vs d).crossingState? i = t.crossingState? i := by
    induction vs generalizing t with
    | nil => rfl
    | cons v vs ih => exact (ih _).trans (crossingState?_declare ..)
  rw [escapedKeys, hstate]
  rfl

/-! ### Declared keys -/

theorem keys?_access_of_ne_root (t : ScopeTree) (start : Nat) (key : VariableKey) (how : Access)
    {i : Nat} (hi : i ≠ rootScope) : (t.access start key how).2.keys? i = t.keys? i := by
  rw [keys?_access]
  unfold resolve
  split
  · rfl
  · rw [keys?_declare, if_neg hi]

theorem keys?_declareAll_of_ne (t : ScopeTree) {scope : Nat} (vs : List Variable) (d : Declaration)
    {i : Nat} (hi : i ≠ scope) : (t.declareAll scope vs d).keys? i = t.keys? i := by
  induction vs generalizing t with
  | nil => rfl
  | cons v vs ih =>
    refine (ih _).trans ?_
    rw [keys?_declare, if_neg hi]

theorem declares_declareAll {t : ScopeTree} {scope : Nat} (vs : List Variable) (d : Declaration)
    {keys : List VariableKey} (hkeys : t.keys? scope = some keys) (key : VariableKey) :
    (t.declareAll scope vs d).Declares scope key ↔ key ∈ keys ∨ ∃ v ∈ vs, v.key = key := by
  induction vs generalizing t keys with
  | nil => simp [declareAll, Declares, hkeys]
  | cons v vs ih =>
    have hnext : (t.declare scope v.key d).2.keys? scope =
        some (if v.key ∈ keys then keys else keys ++ [v.key]) := by
      rw [keys?_declare, if_pos rfl, hkeys]
      rfl
    refine (ih hnext).trans ?_
    split
    · simp only [List.mem_cons, exists_eq_or_imp]
      grind
    · simp only [List.mem_append, List.mem_cons, exists_eq_or_imp]
      grind

theorem Declares.lt {t : ScopeTree} {i : Nat} {key : VariableKey} (h : t.Declares i key) :
    i < t.scopes.length := by
  obtain ⟨keys, hkeys, -⟩ := h
  obtain ⟨s, hs, -⟩ := Option.map_eq_some_iff.mp hkeys
  exact (List.getElem?_eq_some_iff.mp hs).1

theorem inside_of_growth {t t' : ScopeTree} (ht : t.ParentsBelow) (ht' : t'.ParentsBelow)
    (h : t.links <+: t'.links) {i : Nat} (hi : i < t.scopes.length) (j : Nat) :
    t'.Inside i j ↔ t.Inside i j := by
  rw [← isWithin_iff ht, ← isWithin_iff ht', isWithin_of_growth h hi]

end ScopeTree

open ScopeTree

/-! ### What a visit uses -/

/-- A block that is taken out between two surveys. -/
structure Survey.Takes (settings : Settings) (s s' : Survey) (keys : List VariableKey)
    (b : ExtractedBlock) : Prop where
  isNew : s.analysis.scopes.scopes.length ≤ b.scope
  isExtracted : s'.analysis.scopes.isExtracted b.scope = true
  inside : s'.analysis.scopes.Inside b.scope s.current
  /-- What escapes is what is free. -/
  escaped : ∀ key, key ∈ s'.analysis.scopes.escapedKeys b.scope ↔ key ∈ b.block.free settings
  /-- What is free is used outside, or declared by a scope that was opened in between. -/
  bound : ∀ key ∈ b.block.free settings, key ∈ keys ∨
    ∃ j, s.analysis.scopes.scopes.length ≤ j ∧ s'.analysis.scopes.Inside b.scope j ∧
      s'.analysis.scopes.Declares j key

/-- From the one survey to the other, the keys are used, and only certain blocks are taken out. -/
structure Survey.Uses (settings : Settings) (mode : AnalysisMode) (keys : List VariableKey)
    (found : Expr → Prop) (s s' : Survey) : Prop where
  grows : s.Extends s'
  sound : s'.IsSound mode
  declared : ∀ i, i ≠ rootScope → i < s.analysis.scopes.scopes.length →
    s'.analysis.scopes.keys? i = s.analysis.scopes.keys? i
  escaped : ∀ i, i ≠ rootScope → s.analysis.scopes.isExtracted i = true → ∀ key,
    key ∈ s'.analysis.scopes.escapedKeys i ↔
      key ∈ s.analysis.scopes.escapedKeys i ∨ key ∈ keys ∧ s.analysis.scopes.Clear key s.current i
  extracted : ∃ new, s'.analysis.extracted = s.analysis.extracted ++ new ∧
    ∀ b ∈ new, found b.block ∧ s.Takes settings s' keys b

namespace Survey.Uses

variable {settings : Settings} {mode : AnalysisMode} {keys keys' : List VariableKey}
  {found found' : Expr → Prop} {s s' s'' : Survey}

/-- Nothing is used where scopes and extracted blocks stay the same. -/
theorem of_scopes (hs : s.IsSound mode) (hcurrent : s'.current = s.current)
    (hmode : s'.analysis.mode = s.analysis.mode) (hscopes : s'.analysis.scopes = s.analysis.scopes)
    (hextracted : s'.analysis.extracted = s.analysis.extracted) :
    Uses settings mode [] found s s' := by
  have hgrows : s.Extends s' := .of_links hcurrent hmode (by rw [hscopes])
  refine ⟨hgrows, hgrows.isSound hs (hscopes ▸ hs.rooted), fun _ _ _ => by rw [hscopes], ?_, [], ?_, nofun⟩
  · intro i _ _ key
    simp [hscopes]
  · rw [hextracted, List.append_nil]

theorem access (hs : s.IsSound mode) (v : Variable) (how : Access) (hcurrent : s'.current = s.current)
    (hmode : s'.analysis.mode = s.analysis.mode)
    (hscopes : s'.analysis.scopes = (s.analysis.scopes.access s.current v.key how).2)
    (hextracted : s'.analysis.extracted = s.analysis.extracted) :
    Uses settings mode [v.key] found s s' := by
  have hlinks : s'.analysis.scopes.links = s.analysis.scopes.links := by rw [hscopes, links_access]
  have hgrows : s.Extends s' := .of_links hcurrent hmode hlinks
  refine ⟨hgrows, hgrows.isSound hs (hs.rooted.of_links hlinks), ?_, ?_, [], ?_, nofun⟩
  · intro i hi _
    rw [hscopes, keys?_access_of_ne_root _ _ _ _ hi]
  · intro i hroot hi key
    rw [hscopes]
    exact mem_escapedKeys_access hs.rooted hs.current v.key how hroot hi key
  · rw [hextracted, List.append_nil]

theorem mono (h : Uses settings mode keys found s s') (hfound : ∀ x, found x → found' x) :
    Uses settings mode keys found' s s' := by
  obtain ⟨new, hnew, htakes⟩ := h.extracted
  exact ⟨h.grows, h.sound, h.declared, h.escaped, new, hnew,
    fun b hb => ⟨hfound _ (htakes b hb).1, (htakes b hb).2⟩⟩

theorem congr (h : Uses settings mode keys found s s') (hkeys : ∀ key, key ∈ keys ↔ key ∈ keys') :
    Uses settings mode keys' found s s' := by
  obtain ⟨new, hnew, htakes⟩ := h.extracted
  refine ⟨h.grows, h.sound, h.declared, fun i hroot hi key => ?_, new, hnew, fun b hb => ?_⟩
  · rw [h.escaped i hroot hi key, hkeys]
  · obtain ⟨hfound, htakes⟩ := htakes b hb
    exact ⟨hfound, htakes.isNew, htakes.isExtracted, htakes.inside, htakes.escaped,
      fun key hkey => (htakes.bound key hkey).imp (hkeys key).mp id⟩

theorem length_le (h : Uses settings mode keys found s s') :
    s.analysis.scopes.scopes.length ≤ s'.analysis.scopes.scopes.length :=
  length_le_of_growth h.grows.links

theorem extracted_subset (h : Uses settings mode keys found s s') :
    s.analysis.extracted ⊆ s'.analysis.extracted := by
  obtain ⟨new, hnew, -⟩ := h.extracted
  rw [hnew]
  exact List.subset_append_left ..

/-- The way up from a scope stays as clear as it was. -/
theorem clear_iff (hs : s.IsSound mode) (h : Uses settings mode keys found s s') {i : Nat}
    (hroot : i ≠ rootScope) (key : VariableKey) :
    s'.analysis.scopes.Clear key s.current i ↔ s.analysis.scopes.Clear key s.current i := by
  have hbelow := hs.rooted.parentsBelow
  have hinside (j k : Nat) (hj : j < s.analysis.scopes.scopes.length) :=
    inside_of_growth hbelow h.sound.rooted.parentsBelow h.grows.links hj k
  unfold Clear
  rw [hinside _ _ hs.current]
  refine and_congr_right fun hi => forall_congr' fun j => ?_
  rw [hinside _ _ hs.current]
  refine forall_congr' fun hj => ?_
  have hlt : j < s.analysis.scopes.scopes.length := Nat.lt_of_le_of_lt (hj.le hbelow) hs.current
  rw [hinside _ _ hlt]
  refine forall_congr' fun hji => ?_
  have hne : j ≠ rootScope := by
    have hle : i ≤ j := hji.le hbelow
    have hpos : 0 < i := Nat.pos_of_ne_zero hroot
    exact Nat.ne_of_gt (Nat.lt_of_lt_of_le hpos hle)
  unfold Declares
  rw [h.declared j hne hlt]

/-- What was taken out stays as it is. -/
theorem takes_left (hs : s.IsSound mode) (h : Uses settings mode keys found s s')
    (h' : Uses settings mode keys' found' s' s'') {b : ExtractedBlock}
    (hb : s.Takes settings s' keys b) : s.Takes settings s'' (keys ++ keys') b := by
  have hlt := lt_of_isExtracted hb.isExtracted
  have hpos : 0 < s.analysis.scopes.scopes.length := hs.rooted.nonempty
  have hroot : b.scope ≠ rootScope := Nat.ne_of_gt (Nat.lt_of_lt_of_le hpos hb.isNew)
  have hinside (j : Nat) := inside_of_growth h.sound.rooted.parentsBelow
    h'.sound.rooted.parentsBelow h'.grows.links hlt j
  refine ⟨hb.isNew, (isExtracted_of_growth h'.grows.links hlt).trans hb.isExtracted,
    (hinside _).mpr hb.inside, fun key => ?_, fun key hkey => ?_⟩
  · rw [h'.escaped b.scope hroot hb.isExtracted, hb.escaped]
    refine ⟨fun hk => hk.elim id fun ⟨_, hclear⟩ => ?_, .inl⟩
    -- the scope is not around the one where the visit goes on
    have hle : b.scope ≤ s'.current := hclear.1.le h.sound.rooted.parentsBelow
    rw [h.grows.current] at hle
    exact absurd (Nat.lt_of_le_of_lt hle hs.current) (Nat.not_lt.mpr hb.isNew)
  · rcases hb.bound key hkey with hk | ⟨j, hj, hbj, hdeclares⟩
    · exact .inl (List.mem_append_left _ hk)
    · refine .inr ⟨j, hj, (hinside j).mpr hbj, ?_⟩
      unfold Declares
      rw [h'.declared j (Nat.ne_of_gt (Nat.lt_of_lt_of_le hpos hj)) hdeclares.lt]
      exact hdeclares

theorem trans (hs : s.IsSound mode) (h : Uses settings mode keys found s s')
    (h' : Uses settings mode keys' found s' s'') : Uses settings mode (keys ++ keys') found s s'' := by
  obtain ⟨new, hnew, htakes⟩ := h.extracted
  obtain ⟨new', hnew', htakes'⟩ := h'.extracted
  refine ⟨h.grows.trans h'.grows, h'.sound, fun i hroot hi => ?_, fun i hroot hi key => ?_,
    new ++ new', ?_, fun b hb => ?_⟩
  · rw [h'.declared i hroot (Nat.lt_of_lt_of_le hi h.length_le), h.declared i hroot hi]
  · have hi' := (isExtracted_of_growth h.grows.links (lt_of_isExtracted hi)).trans hi
    rw [h'.escaped i hroot hi', h.escaped i hroot hi, h.grows.current, h.clear_iff hs hroot,
      List.mem_append, or_assoc, or_and_right]
  · rw [hnew', hnew, List.append_assoc]
  · rcases List.mem_append.mp hb with hb | hb
    · exact ⟨(htakes b hb).1, h.takes_left hs h' (htakes b hb).2⟩
    · obtain ⟨hfound, htaken⟩ := htakes' b hb
      refine ⟨hfound, h.length_le.trans htaken.isNew, htaken.isExtracted,
        h.grows.current ▸ htaken.inside, htaken.escaped, fun key hkey => ?_⟩
      rcases htaken.bound key hkey with hk | ⟨j, hj, hbound⟩
      · exact .inl (List.mem_append_right _ hk)
      · exact .inr ⟨j, h.length_le.trans hj, hbound⟩

end Survey.Uses

/-! ### Scopes of their own -/

namespace Survey

variable {settings : Settings} {mode : AnalysisMode} {s : Survey}

theorem keys?_entered (s : Survey) (owner : Owner) (declared : List Variable) {i : Nat}
    (hi : i ≠ s.analysis.scopes.scopes.length) :
    (s.entered owner declared).analysis.scopes.keys? i = s.analysis.scopes.keys? i := by
  show ((s.analysis.scopes.push s.current owner.kind).2.declareAll _ declared _).keys? i = _
  rw [keys?_declareAll_of_ne _ _ _ hi, keys?_push, if_neg hi]

/-- Old scopes keep their variables when another one is opened. -/
theorem info?_entered (s : Survey) (owner : Owner) (declared : List Variable) {i : Nat}
    (hi : i < s.analysis.scopes.scopes.length) (j : Nat) :
    (s.entered owner declared).analysis.scopes.info? ⟨i, j⟩ = s.analysis.scopes.info? ⟨i, j⟩ := by
  have hdeclare (t : ScopeTree) {k : Nat} (hk : k < t.scopes.length) (hik : i ≠ k) (key : VariableKey)
      (d : Declaration) : (t.declare k key d).2.info? ⟨i, j⟩ = t.info? ⟨i, j⟩ := by
    rcases declare_cases t hk key d with ⟨_, -, -, heq⟩ | ⟨-, heq⟩
    · rw [heq]
    · have hscope := t.scope_declare k key d
      rw [heq, if_neg]
      rintro h
      rw [← h] at hscope
      exact hik hscope
  have hall (t : ScopeTree) {k : Nat} (hk : k < t.scopes.length) (hik : i ≠ k) (d : Declaration) :
      (t.declareAll k declared d).info? ⟨i, j⟩ = t.info? ⟨i, j⟩ := by
    induction declared generalizing t with
    | nil => rfl
    | cons v vs ih =>
      refine (ih _ ?_).trans (hdeclare t hk hik v.key d)
      rwa [← length_links, links_declare, length_links]
  show ((s.analysis.scopes.push s.current owner.kind).2.declareAll _ declared _).info? _ = _
  rw [hall _ (by rw [length_push]; exact Nat.lt_succ_self _) (Nat.ne_of_lt hi), info?_push]

/-- The new scope declares its own variables. -/
theorem declares_entered (s : Survey) (owner : Owner) (declared : List Variable) (key : VariableKey) :
    (s.entered owner declared).analysis.scopes.Declares s.analysis.scopes.scopes.length key ↔
      ∃ v ∈ declared, v.key = key := by
  have hkeys : (s.analysis.scopes.push s.current owner.kind).2.keys? s.analysis.scopes.scopes.length =
      some [] := by
    rw [keys?_push, if_pos rfl]
  refine (declares_declareAll declared owner.declaration hkeys key).trans ?_
  simp

theorem escapedKeys_entered (s : Survey) (owner : Owner) (declared : List Variable) (i : Nat) :
    (s.entered owner declared).analysis.scopes.escapedKeys i =
      if i = s.analysis.scopes.scopes.length then [] else s.analysis.scopes.escapedKeys i := by
  show ((s.analysis.scopes.push s.current owner.kind).2.declareAll _ declared _).escapedKeys i = _
  rw [escapedKeys_declareAll, escapedKeys_push]

theorem links_le_entered (s : Survey) (owner : Owner) (declared : List Variable) :
    s.analysis.scopes.links <+: (s.entered owner declared).analysis.scopes.links := by
  rw [links_entered]
  exact List.prefix_append ..

theorem parent?_entered (s : Survey) (owner : Owner) (declared : List Variable) :
    (s.entered owner declared).analysis.scopes.parent? s.analysis.scopes.scopes.length =
      some s.current := by
  rw [parent?_eq, links_entered, ← length_links, List.getElem?_concat_length]
  rfl

theorem isExtracted_entered (s : Survey) (self : Expr) (declared : List Variable) :
    (s.entered (.method self) declared).analysis.scopes.isExtracted s.analysis.scopes.scopes.length =
      true := by
  rw [isExtracted_eq, links_entered, ← length_links, List.getElem?_concat_length]
  rfl

/-- Around the new scope are those around the one where it is opened. -/
theorem inside_entered (hs : s.IsSound mode) (owner : Owner) (declared : List Variable) {j : Nat} :
    (s.entered owner declared).analysis.scopes.Inside (s.entered owner declared).current j ↔
      j = s.analysis.scopes.scopes.length ∨ s.analysis.scopes.Inside s.current j := by
  have hparent := s.parent?_entered owner declared
  have hold := inside_of_growth hs.rooted.parentsBelow (hs.entered owner declared).rooted.parentsBelow
    (s.links_le_entered owner declared) hs.current j
  constructor
  · intro h
    cases h with
    | refl => exact .inl rfl
    | up hp h =>
      cases hp.symm.trans hparent
      exact .inr (hold.mp h)
  · rintro (rfl | h)
    · exact .refl _
    · exact .up hparent (hold.mpr h)

/-- From the new scope the way is clear that was clear before, but for the variables of the scope. -/
theorem clear_entered (hs : s.IsSound mode) (owner : Owner) (declared : List Variable)
    {key : VariableKey} {i : Nat} (hi : i < s.analysis.scopes.scopes.length) :
    (s.entered owner declared).analysis.scopes.Clear key (s.entered owner declared).current i ↔
      s.analysis.scopes.Clear key s.current i ∧ ∀ v ∈ declared, v.key ≠ key := by
  have hbelow := hs.rooted.parentsBelow
  have hsound := hs.entered owner declared
  have hup {j : Nat} := s.inside_entered hs owner declared (j := j)
  have hold {j : Nat} (hj : j < s.analysis.scopes.scopes.length) (k : Nat) :=
    inside_of_growth hbelow hsound.rooted.parentsBelow (s.links_le_entered owner declared) hj k
  have hdeclares {j : Nat} (hj : j < s.analysis.scopes.scopes.length) :
      (s.entered owner declared).analysis.scopes.Declares j key ↔ s.analysis.scopes.Declares j key := by
    unfold Declares
    rw [s.keys?_entered owner declared (Nat.ne_of_lt hj)]
  constructor
  · rintro ⟨hinside, hclear⟩
    have hinside' := (hup.mp hinside).resolve_left (Nat.ne_of_lt hi)
    refine ⟨⟨hinside', fun j hj hji hkey => ?_⟩, fun v hv heq => ?_⟩
    · have hlt := Nat.lt_of_le_of_lt (hj.le hbelow) hs.current
      exact hclear j (hup.mpr (.inr hj)) ((hold hlt i).mpr hji) ((hdeclares hlt).mpr hkey)
    · exact hclear _ (.refl _) hinside ((s.declares_entered owner declared key).mpr ⟨v, hv, heq⟩)
  · rintro ⟨⟨hinside, hclear⟩, hnew⟩
    refine ⟨hup.mpr (.inr hinside), fun j hj hji hkey => ?_⟩
    rcases hup.mp hj with rfl | hj
    · obtain ⟨v, hv, heq⟩ := (s.declares_entered owner declared key).mp hkey
      exact hnew v hv heq
    · have hlt := Nat.lt_of_le_of_lt (hj.le hbelow) hs.current
      exact hclear j hj ((hold hlt i).mp hji) ((hdeclares hlt).mp hkey)

/-- The block that a scope is opened for, if it becomes a method. -/
def taken (s : Survey) : Owner → List ExtractedBlock
  | .method self => [⟨self, s.analysis.scopes.scopes.length⟩]
  | _ => []

theorem extracted_entered (s : Survey) (owner : Owner) (declared : List Variable) :
    (s.entered owner declared).analysis.extracted = s.analysis.extracted ++ s.taken owner := by
  cases owner <;> first | rfl | exact (List.append_nil _).symm

/-- **What is used in a scope of its own is used outside, but for the variables of the scope.** -/
theorem Uses.opened {keys : List VariableKey} {found : Expr → Prop} (hs : s.IsSound mode)
    (owner : Owner) (declared : List Variable) {inner : Survey}
    (h : Uses settings mode keys found (s.entered owner declared) inner)
    (hmethod : ∀ self, owner = .method self →
      declared = [] ∧ found self ∧ ∀ key, key ∈ keys ↔ key ∈ self.free settings) :
    Uses settings mode (unbound declared keys) found s (s.left inner) := by
  have hsound := hs.entered owner declared
  have hgrows := h.grows.left owner declared
  have hpos : 0 < s.analysis.scopes.scopes.length := hs.rooted.nonempty
  have hlength := s.length_entered owner declared
  have hself : s.analysis.scopes.scopes.length < (s.entered owner declared).analysis.scopes.scopes.length := by
    omega
  obtain ⟨new, hnew, htakes⟩ := h.extracted
  have hbelow := h.sound.rooted.parentsBelow
  have hparent : inner.analysis.scopes.parent? s.analysis.scopes.scopes.length = some s.current :=
    (parent?_of_growth h.grows.links hself).trans (s.parent?_entered owner declared)
  refine ⟨hgrows, hgrows.isSound hs h.sound.rooted, fun i hroot hi => ?_,
    fun i hroot hi key => ?_, s.taken owner ++ new, ?_, fun b hb => ?_⟩
  · exact (h.declared i hroot (by omega)).trans (s.keys?_entered owner declared (Nat.ne_of_lt hi))
  · have hlt := lt_of_isExtracted hi
    have hi' := (isExtracted_of_growth (s.links_le_entered owner declared) hlt).trans hi
    show key ∈ inner.analysis.scopes.escapedKeys i ↔ _
    rw [h.escaped i hroot hi', escapedKeys_entered, if_neg (Nat.ne_of_lt hlt),
      clear_entered hs owner declared hlt, mem_unbound]
    grind
  · show inner.analysis.extracted = _
    rw [hnew, extracted_entered, List.append_assoc]
  · rcases List.mem_append.mp hb with hb | hb
    · -- the block itself, from which everything escapes that is used in it
      cases owner with
      | method self =>
        cases List.mem_singleton.mp hb
        obtain ⟨rfl, hfound, hkeys⟩ := hmethod self rfl
        have hextracted := s.isExtracted_entered self []
        refine ⟨hfound, Nat.le_refl _, (isExtracted_of_growth h.grows.links hself).trans hextracted,
          .up hparent (.refl _), fun key => ?_, fun key hkey => .inl ?_⟩
        · show key ∈ inner.analysis.scopes.escapedKeys s.analysis.scopes.scopes.length ↔ _
          have hclear : (s.entered (.method self) []).analysis.scopes.Clear key
              s.analysis.scopes.scopes.length s.analysis.scopes.scopes.length := by
            refine ⟨.refl _, fun j hj hji hdeclares => ?_⟩
            cases hj.antisymm hsound.rooted.parentsBelow hji
            obtain ⟨v, hv, -⟩ := (s.declares_entered (.method self) [] key).mp hdeclares
            cases hv
          rw [h.escaped _ (Nat.ne_of_gt hpos) hextracted, escapedKeys_entered, if_pos rfl, hkeys]
          exact ⟨fun hk => hk.elim nofun And.left, fun hk => .inr ⟨hk, hclear⟩⟩
        · exact mem_unbound.mpr ⟨(hkeys key).mpr hkey, nofun⟩
      | _ => cases hb
    · obtain ⟨hfound, htaken⟩ := htakes b hb
      refine ⟨hfound, (Nat.le_of_lt hself).trans htaken.isNew, htaken.isExtracted,
        htaken.inside.trans (.up hparent (.refl _)), htaken.escaped, fun key hkey => ?_⟩
      rcases htaken.bound key hkey with hk | ⟨j, hj, hbound⟩
      · by_cases hbinds : ∃ v ∈ declared, v.key = key
        · refine .inr ⟨s.analysis.scopes.scopes.length, Nat.le_refl _, htaken.inside, ?_⟩
          show inner.analysis.scopes.Declares _ key
          unfold Declares
          rw [h.declared _ (Nat.ne_of_gt hpos) hself]
          exact (s.declares_entered owner declared key).mpr hbinds
        · exact .inl (mem_unbound.mpr ⟨hk, fun v hv heq => hbinds ⟨v, hv, heq⟩⟩)
      · exact .inr ⟨j, (Nat.le_of_lt hself).trans hj, hbound⟩

end Survey

/-! ### The methods of a form -/

/-- A block that becomes a method where it is a value. -/
def Node.isMethodBlock {ι : Type} (n : Node ι) : Bool :=
  match n.form with
  | .block locals expressions _ => !Form.isTransparent locals expressions
  | _ => false

section Methods

variable (settings : Settings) (found : Expr → Prop)

mutual

/-- The methods of a move have been found, and their scopes use what is free in them. -/
def Move.IsProper : Move → Prop
  | .scope (.method self) declared moves =>
    (declared = [] ∧ found self ∧ ∀ key, key ∈ Move.freeAll settings moves ↔ key ∈ self.free settings) ∧
      Move.AreProper moves
  | .scope _ _ moves => Move.AreProper moves
  | _ => True

def Move.AreProper : List Move → Prop
  | [] => True
  | m :: ms => m.IsProper ∧ Move.AreProper ms

end

namespace Move

variable {settings found}

@[simp] theorem areProper_nil : AreProper settings found [] := by simp [AreProper]

theorem isProper_scope_iff {owner : Owner} {declared : List Variable} {moves : List Move} :
    IsProper settings found (.scope owner declared moves) ↔
      (∀ self, owner = .method self → declared = [] ∧ found self ∧
        ∀ key, key ∈ freeAll settings moves ↔ key ∈ self.free settings) ∧
      AreProper settings found moves := by
  cases owner <;> simp [IsProper]

@[simp] theorem areProper_cons (m : Move) (ms : List Move) :
    AreProper settings found (m :: ms) ↔ m.IsProper settings found ∧ AreProper settings found ms := by
  simp [AreProper]

@[simp] theorem areProper_append (first moves : List Move) :
    AreProper settings found (first ++ moves) ↔
      AreProper settings found first ∧ AreProper settings found moves := by
  induction first with
  | nil => simp
  | cons m first ih => simp [ih, and_assoc]

@[simp] theorem areProper_map {α : Type} (f : α → Move) (as : List α) :
    AreProper settings found (as.map f) ↔ ∀ a ∈ as, (f a).IsProper settings found := by
  induction as with
  | nil => simp
  | cons a as ih => simp [ih]

@[simp] theorem areProper_flatMap {α : Type} (f : α → List Move) (as : List α) :
    AreProper settings found (as.flatMap f) ↔ ∀ a ∈ as, AreProper settings found (f a) := by
  induction as with
  | nil => simp
  | cons a as ih => simp [ih]

end Move

namespace Moves

open Move

variable {settings found} (mode : AnalysisMode) (node : Nat)

@[simp] theorem areProper_noteIf (condition : Bool) (t : TypeRef) :
    AreProper settings found (noteIf condition t) := by
  cases condition <;> simp [noteIf, IsProper]

@[simp] theorem areProper_method (m : Option MethodInfo) : AreProper settings found (method m) := by
  cases m with
  | none => exact areProper_nil
  | some m => exact areProper_noteIf ..

@[simp] theorem areProper_constant (c : Constant) : AreProper settings found (constant settings c) := by
  obtain ⟨value, ty⟩ := c
  cases value with
  | closure fields =>
    unfold constant
    dsimp only
    split
    · refine (areProper_flatMap ..).mpr fun field _ => ?_
      split <;> simp [IsProper]
    · exact areProper_nil
  | _ => simp [constant, IsProper]

@[simp] theorem areProper_values (es : List Expr) : AreProper settings found (values es) := by
  simp [values, IsProper]

@[simp] theorem isProper_enclosed (kind : ScopeKind) (e : Expr) (returns : Bool) :
    (enclosed kind e returns).IsProper settings found := by
  simp [enclosed, body, IsProper]

@[simp] theorem areProper_sequence (last : Position) (es : List Expr) :
    AreProper settings found (sequence last es) := by
  induction es with
  | nil => exact areProper_nil
  | cons e es ih =>
    cases es with
    | nil => simp [sequence, IsProper]
    | cons e' es => exact (areProper_cons ..).mpr ⟨by simp [IsProper], ih⟩

@[simp] theorem isProper_block (locals : List Variable) (es : List Expr) (ty : TypeRef)
    (role : BlockRole) : (block node locals es ty role).IsProper settings found := by
  simp [block, IsProper]

@[simp] theorem areProper_arguments (es : List Expr) (ps : List ParameterInfo) :
    AreProper settings found (arguments es ps) := by
  have hone (e : Expr) (m : PassingMode) : (argument e m).IsProper settings found := by
    unfold argument
    split <;> simp [IsProper]
  induction es generalizing ps with
  | nil => cases ps <;> exact areProper_nil
  | cons e es ih => cases ps <;> simp [arguments, hone, ih]

theorem areProper_assignment (op : BinaryOp) (left right : Expr) (isStatement : Bool) :
    AreProper settings found (assignment settings node op left right isStatement) := by
  unfold assignment
  split
  · split <;> simp [IsProper]
  · simp [IsProper]

theorem areProper_branches (test ifTrue ifFalse : Expr) (returns : Bool) :
    AreProper settings found (branches test ifTrue ifFalse returns) := by
  unfold branches
  split <;> simp [IsProper]

theorem areProper_switch (subject : Expr) (cases : List (SwitchCase Expr)) (defaultBody : Option Expr)
    (returns : Bool) : AreProper settings found (switch subject cases defaultBody returns) := by
  simp [switch, IsProper]

theorem areProper_attempt (tried : Expr) (handlers : List (Handler Expr)) (cleanup fault : Option Expr)
    (returns : Bool) : AreProper settings found (attempt tried handlers cleanup fault returns) := by
  simp [attempt, handler, body, IsProper]

/-- The only method is the block itself, if it is a value. -/
theorem areProper_value (f : Form Expr)
    (h : mode = .source → (Node.mk node f : Expr).isMethodBlock = true → found (.mk node f)) :
    AreProper settings found (value settings mode node f) := by
  cases f with
  | binary op left right ty m =>
    unfold value
    dsimp only
    split
    · exact areProper_assignment ..
    · simp
  | unary op operand ty m =>
    unfold value unary
    simp only [areProper_append, areProper_noteIf, areProper_method, true_and]
    split
    · split <;> simp [IsProper]
    · exact areProper_nil
  | block locals es ty =>
    unfold value valueBlock
    dsimp only
    split
    next hmethod =>
      simp only [Bool.and_eq_true, beq_iff_eq] at hmethod
      simpa [IsProper, Node.free_block] using h hmethod.1 hmethod.2
    · simp
  | lambda name parameters lambdaBody returnType ty =>
    cases h : lambdaBody.rendersAsStatements <;> simp [value, lambda, IsProper, body, h]
  | call receiver m args =>
    unfold value call
    dsimp only
    split
    · simp
    · split <;> simp [IsProper]
  | switch subject cases defaultBody ty => exact areProper_switch ..
  | «try» tried handlers cleanup fault ty => exact areProper_attempt ..
  | jump kind target result ty =>
    unfold value
    dsimp only
    split <;> simp [IsProper]
  | _ => simp [value, IsProper]

theorem areProper_ofForm (f : Form Expr) (position : Position)
    (h : mode = .source → position = .value → (Node.mk node f : Expr).isMethodBlock = true →
      found (.mk node f)) :
    AreProper settings found (ofForm settings mode node f position) := by
  have hvalue (hplain : (Node.mk node f : Expr).isMethodBlock = false) :
      AreProper settings found (value settings mode node f) :=
    areProper_value mode node f fun _ hmethod => absurd (hplain.symm.trans hmethod) Bool.false_ne_true
  cases position with
  | value => exact areProper_value mode node f fun hmode => h hmode rfl
  | statement =>
    cases f with
    | block locals es ty => simp [ofForm, statement]
    | binary op left right ty m =>
      unfold ofForm statement
      dsimp only
      split
      · exact areProper_assignment ..
      · exact hvalue rfl
    | conditional test ifTrue ifFalse ty => exact areProper_branches ..
    | _ => exact hvalue rfl
  | returning =>
    cases f with
    | block locals es ty => simp [ofForm, returning]
    | conditional test ifTrue ifFalse ty =>
      unfold ofForm returning
      dsimp only
      split
      · exact hvalue rfl
      · exact areProper_branches ..
    | switch subject cases defaultBody ty => exact areProper_switch ..
    | «try» tried handlers cleanup fault ty => exact areProper_attempt ..
    | _ => exact hvalue rfl

end Moves

end Methods

/-! ### The visit of a tree -/

namespace Visit

variable {settings : Settings} {mode : AnalysisMode} {found : Expr → Prop}

mutual

theorem uses_perform : (m : Move) →
    (∀ c ∈ m.visits, ∀ s : Survey, s.IsSound mode →
      s.Uses settings mode (c.1.free settings) found ((tree settings c.1 c.2).after s)) →
    m.IsProper settings found → ∀ s : Survey, s.IsSound mode →
      s.Uses settings mode (m.free settings) found ((perform settings m).after s)
  | .child e position, hvisits, _, s, hs => hvisits (e, position) (List.mem_singleton_self _) s hs
  | .note t, _, _, s, hs => by
    have hnoted : ((noteType settings t).after s).analysis.extracted = s.analysis.extracted := by
      unfold noteType
      split <;> rfl
    obtain ⟨hcurrent, hmode, hscopes⟩ := @after_noteType settings t s
    exact .of_scopes hs hcurrent hmode hscopes hnoted
  | .jump target, _, _, s, hs => .of_scopes hs rfl rfl rfl rfl
  | .reference v isAssigned, _, _, s, hs => .access hs v (.reference isAssigned) rfl rfl rfl rfl
  | .assignment node v isStatement isTyped, _, _, s, hs =>
    .access hs v (.assignment node isStatement) rfl rfl rfl rfl
  | .output node v, _, _, s, hs =>
    .access hs v (.output (settings.choice .inlineOutputs)) rfl rfl rfl rfl
  | .scope owner declared moves, hvisits, hproper, s, hs => by
    obtain ⟨hmethod, hmoves⟩ := Move.isProper_scope_iff.mp hproper
    rw [perform, after_opened]
    exact (uses_performAll moves hvisits hmoves _ (hs.entered owner declared)).opened hs owner
      declared hmethod

theorem uses_performAll : (ms : List Move) →
    (∀ c ∈ Move.visitsAll ms, ∀ s : Survey, s.IsSound mode →
      s.Uses settings mode (c.1.free settings) found ((tree settings c.1 c.2).after s)) →
    Move.AreProper settings found ms → ∀ s : Survey, s.IsSound mode →
      s.Uses settings mode (Move.freeAll settings ms) found ((performAll settings ms).after s)
  | [], _, _, s, hs => .of_scopes hs rfl rfl rfl rfl
  | m :: ms, hvisits, hproper, s, hs => by
    obtain ⟨hm, hms⟩ := (Move.areProper_cons m ms).mp hproper
    have hfirst := uses_perform m (fun c hc => hvisits c (List.mem_append_left _ hc)) hm s hs
    exact hfirst.trans hs
      (uses_performAll ms (fun c hc => hvisits c (List.mem_append_right _ hc)) hms _ hfirst.sound)

end

/-- **A visit uses the free variables of its tree, and takes out only blocks that it meets as
values.** -/
theorem uses_tree (e : Expr) (position : Position) (s : Survey) (hs : s.IsSound mode) :
    s.Uses settings mode (e.free settings)
      (fun x => Meets settings mode e position x .value ∧ x.isMethodBlock = true)
      ((tree settings e position).after s) := by
  induction e using Node.induction generalizing position s with
  | h node f ih =>
    rw [after_tree, hs.mode]
    refine (uses_performAll _ ?_ ?_ s hs).congr (Moves.mem_free_ofForm settings mode node f position)
    · rintro ⟨c, q⟩ hc s hs
      exact (ih c (Moves.mem_children_of_visits settings mode hc) q s hs).mono
        fun x hx => ⟨.there hc hx.1, hx.2⟩
    · refine Moves.areProper_ofForm mode node f position fun _ hvalue hmethod => ?_
      subst hvalue
      exact ⟨.here .., hmethod⟩

/-! ### All blocks are taken out -/

theorem uses_visit (c : Expr × Position) (s : Survey) (hs : s.IsSound mode) :
    s.Uses settings mode (c.1.free settings) (fun _ => True) ((tree settings c.1 c.2).after s) :=
  (uses_tree c.1 c.2 s hs).mono fun _ _ => trivial

mutual

/-- What is taken out by one of the visits of a move is taken out by the move. -/
theorem extracted_of_visit : (m : Move) → m.IsProper settings (fun _ => True) →
    ∀ c ∈ m.visits, ∀ s : Survey, s.IsSound mode → ∃ s₀ : Survey, s₀.IsSound mode ∧
      ((tree settings c.1 c.2).after s₀).analysis.extracted ⊆
        ((perform settings m).after s).analysis.extracted
  | .child e position, _, c, hc, s, hs => by
    cases List.mem_singleton.mp hc
    exact ⟨s, hs, List.Subset.refl _⟩
  | .scope owner declared moves, hproper, c, hc, s, hs => by
    obtain ⟨-, hmoves⟩ := Move.isProper_scope_iff.mp hproper
    obtain ⟨s₀, hs₀, hsubset⟩ := extracted_of_visitAll moves hmoves c hc _ (hs.entered owner declared)
    refine ⟨s₀, hs₀, ?_⟩
    rw [perform, after_opened]
    exact hsubset

theorem extracted_of_visitAll : (ms : List Move) → Move.AreProper settings (fun _ => True) ms →
    ∀ c ∈ Move.visitsAll ms, ∀ s : Survey, s.IsSound mode → ∃ s₀ : Survey, s₀.IsSound mode ∧
      ((tree settings c.1 c.2).after s₀).analysis.extracted ⊆
        ((performAll settings ms).after s).analysis.extracted
  | m :: ms, hproper, c, hc, s, hs => by
    obtain ⟨hm, hms⟩ := (Move.areProper_cons m ms).mp hproper
    have hfirst := uses_perform m (fun c _ => uses_visit c) hm s hs
    have hrest := uses_performAll ms (fun c _ => uses_visit c) hms _ hfirst.sound
    rcases List.mem_append.mp hc with hc | hc
    · obtain ⟨s₀, hs₀, hsubset⟩ := extracted_of_visit m hm c hc s hs
      exact ⟨s₀, hs₀, List.Subset.trans hsubset hrest.extracted_subset⟩
    · exact extracted_of_visitAll ms hms c hc _ hfirst.sound

end

/-- **Every block that is met as a value becomes a method, unless it is transparent.** -/
theorem extracted_of_meets {e x : Expr} {position : Position}
    (h : Meets settings .source e position x .value) (hx : x.isMethodBlock = true) (s : Survey)
    (hs : s.IsSound .source) :
    ∃ b ∈ ((tree settings e position).after s).analysis.extracted, b.block = x := by
  generalize hvalue : Position.value = q at h
  induction h generalizing s with
  | here e q =>
    subst hvalue
    obtain ⟨node, f⟩ := e
    cases f with
    | block locals es ty =>
      have hmoves : Moves.ofExpr settings .source (.mk node (.block locals es ty)) .value =
          [.scope (.method (.mk node (.block locals es ty))) []
            [Moves.block node locals es ty (BlockRole.ofBody (!ty.isVoid))]] :=
        congrArg (fun m => [m]) (if_pos hx)
      rw [after_tree, hs.mode, hmoves, performAll_one, perform, after_opened]
      have hinner := uses_performAll
        [Moves.block node locals es ty (BlockRole.ofBody (!ty.isVoid))]
        (fun c _ => @uses_visit settings _ c) (by simp) _ (hs.entered (.method (.mk node (.block locals es ty))) [])
      refine ⟨⟨.mk node (.block locals es ty), s.analysis.scopes.scopes.length⟩,
        hinner.extracted_subset ?_, rfl⟩
      rw [Survey.extracted_entered]
      exact List.mem_append_right _ (List.mem_singleton_self _)
    | _ => cases hx
  | @there e c x p q a hmem _ ih =>
    obtain ⟨node, f⟩ := e
    rw [after_tree, hs.mode]
    obtain ⟨s₀, hs₀, hsubset⟩ := extracted_of_visitAll _
      (Moves.areProper_ofForm .source node f p fun _ _ _ => trivial) _ hmem s hs
    obtain ⟨b, hb, hblock⟩ := ih hx s₀ hs₀ hvalue
    exact ⟨b, hsubset hb, hblock⟩

/-! ### Finished analyses -/

theorem meets_run {e x : Expr} {position : Position} (h : Meets settings .source e position x .value)
    (hx : x.isMethodBlock = true) :
    ∃ b ∈ (run settings .source e position).extracted, b.block = x := by
  obtain ⟨namespaces, hrun⟩ := run_eq settings .source e position
  rw [hrun]
  exact extracted_of_meets h hx _ (Survey.isSound_start .source)

/-- **A block that becomes a method is given the variables that are free in it, and each of these is
declared by a scope around the block or is free in the body.** -/
theorem run_extracted {e : Expr} {position : Position} {b : ExtractedBlock}
    (hb : b ∈ (run settings mode e position).extracted) :
    let a := run settings mode e position
    (Meets settings mode e position b.block .value ∧ b.block.isMethodBlock = true) ∧
      (∀ key, key ∈ (a.escaped b).map (·.key) ↔ key ∈ b.block.free settings) ∧
      ∀ key ∈ b.block.free settings, key ∈ e.free settings ∨
        ∃ j, j ≠ rootScope ∧ a.scopes.Inside b.scope j ∧ a.scopes.Declares j key := by
  obtain ⟨namespaces, hrun⟩ := run_eq settings mode e position
  rw [hrun] at hb ⊢
  obtain ⟨new, hnew, htakes⟩ := (uses_tree e position _ (Survey.isSound_start mode)).extracted
  rw [hnew] at hb
  obtain ⟨hfound, htaken⟩ := htakes b hb
  refine ⟨hfound, fun key => ?_, fun key hkey => (htaken.bound key hkey).imp id ?_⟩
  · rw [← htaken.escaped key]
    unfold Analysis.escaped escapedKeys crossingState?
    cases ScopeTree.scope? _ b.scope <;> rfl
  · rintro ⟨j, hj, hbound⟩
    exact ⟨j, Nat.ne_of_gt hj, hbound⟩

end Visit

end TreeScribe
