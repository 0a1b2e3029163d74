import TreeScribe.Proofs.Analysis.Meets
import TreeScribe.Proofs.Scope.Keys

/-! What a visit keeps.

A visit ends in the scope in which it started and changes no scope's kind or parent. A property of
scope trees that lasts through every operation holds after every visit (`Visit.keeps_tree`). Two such
properties are used later: an assignment that carries a declaration was met as a statement
(`Visit.meets_of_carrier`), and no scope has two variables of one key. -/
namespace TreeScribe

namespace ScopeTree

/-- Declares variables in a scope. -/
def declareAll (t : ScopeTree) (i : Nat) (vs : List Variable) (d : Declaration) : ScopeTree :=
  vs.foldl (fun t v => (t.declare i v.key d).2) t

theorem links_declareAll (t : ScopeTree) (i : Nat) (vs : List Variable) (d : Declaration) :
    (t.declareAll i vs d).links = t.links := by
  induction vs generalizing t with
  | nil => rfl
  | cons v vs ih =>
    show ((t.declare i v.key d).2.declareAll i vs d).links = _
    rw [ih, links_declare]

/-- The property lasts through every operation that names a scope of the tree. Of the assignments
that may carry a declaration, only those of certain nodes are made. -/
structure Lasts (carries : Nat → Prop) (I : ScopeTree → Prop) : Prop where
  push : ∀ {t parent} kind, t.Rooted → parent < t.scopes.length → I t → I (t.push parent kind).2
  declare : ∀ {t i} key d, t.Rooted → i < t.scopes.length → I t → I (t.declare i key d).2
  access : ∀ {t start} key how, t.Rooted → start < t.scopes.length →
    (∀ node, how = .assignment node true → carries node) → I t → I (t.access start key how).2

theorem Lasts.declareAll {carries : Nat → Prop} {I : ScopeTree → Prop} (hI : Lasts carries I)
    {t : ScopeTree} (ht : t.Rooted) {i : Nat} (hi : i < t.scopes.length) (vs : List Variable)
    (d : Declaration) (h : I t) : I (t.declareAll i vs d) := by
  induction vs generalizing t with
  | nil => exact h
  | cons v vs ih =>
    have hlinks := links_declare t i v.key d
    have hlength : i < (t.declare i v.key d).2.scopes.length := by
      rwa [← length_links, hlinks, length_links]
    exact ih (ht.of_links hlinks) hlength (hI.declare v.key d ht hi h)

end ScopeTree

open ScopeTree

namespace Survey

variable {s s' s'' : Survey} {mode : AnalysisMode}

/-- A survey as it is under way in a mode. -/
structure IsSound (mode : AnalysisMode) (s : Survey) : Prop where
  mode : s.analysis.mode = mode
  rooted : s.analysis.scopes.Rooted
  current : s.current < s.analysis.scopes.scopes.length

/-- The second survey goes on from the first, in the same scope. -/
structure Extends (s s' : Survey) : Prop where
  current : s'.current = s.current
  mode : s'.analysis.mode = s.analysis.mode
  links : s.analysis.scopes.links <+: s'.analysis.scopes.links

theorem Extends.refl (s : Survey) : s.Extends s := ⟨rfl, rfl, List.prefix_rfl⟩

theorem Extends.trans (h : s.Extends s') (h' : s'.Extends s'') : s.Extends s'' :=
  ⟨h'.current.trans h.current, h'.mode.trans h.mode, h.links.trans h'.links⟩

theorem Extends.of_links (hcurrent : s'.current = s.current)
    (hmode : s'.analysis.mode = s.analysis.mode)
    (hlinks : s'.analysis.scopes.links = s.analysis.scopes.links) : s.Extends s' :=
  ⟨hcurrent, hmode, hlinks.symm ▸ List.prefix_rfl⟩

theorem Extends.isSound (h : s.Extends s') (hs : s.IsSound mode) (hrooted : s'.analysis.scopes.Rooted) :
    s'.IsSound mode := by
  refine ⟨h.mode.trans hs.mode, hrooted, ?_⟩
  rw [h.current]
  exact Nat.lt_of_lt_of_le hs.current (length_le_of_growth h.links)

/-- The survey at the start of a scope. -/
def entered (s : Survey) (owner : Owner) (declared : List Variable) : Survey :=
  let scope := s.analysis.scopes.scopes.length
  let scopes := (s.analysis.scopes.push s.current owner.kind).2.declareAll scope declared
    owner.declaration
  { analysis := { owner.register scope s.analysis with scopes }, current := scope }

/-- The survey at the end of a scope that was opened in this one. -/
def left (s inner : Survey) : Survey :=
  { inner with
    current := (inner.analysis.scopes.parent? s.analysis.scopes.scopes.length).getD rootScope }

theorem links_entered (s : Survey) (owner : Owner) (declared : List Variable) :
    (s.entered owner declared).analysis.scopes.links =
      s.analysis.scopes.links ++ [(owner.kind, some s.current)] := by
  show (ScopeTree.declareAll _ _ _ _).links = _
  rw [links_declareAll, links_push]

theorem length_entered (s : Survey) (owner : Owner) (declared : List Variable) :
    (s.entered owner declared).analysis.scopes.scopes.length = s.analysis.scopes.scopes.length + 1 := by
  rw [← length_links, links_entered, List.length_append, length_links, List.length_singleton]

theorem mode_register (owner : Owner) (scope : Nat) (a : Analysis) :
    (owner.register scope a).mode = a.mode := by
  cases owner <;> rfl

theorem IsSound.entered (h : s.IsSound mode) (owner : Owner) (declared : List Variable) :
    (s.entered owner declared).IsSound mode := by
  have hpush := h.rooted.push h.current owner.kind
  refine ⟨(mode_register owner _ s.analysis).trans h.mode, hpush.of_links (links_declareAll ..), ?_⟩
  show s.analysis.scopes.scopes.length < _
  rw [length_entered]
  exact Nat.lt_succ_self _

/-- The scope is left for the one around it. -/
theorem Extends.left (owner : Owner) (declared : List Variable) {inner : Survey}
    (h : (s.entered owner declared).Extends inner) : s.Extends (s.left inner) := by
  have hlinks : s.analysis.scopes.links ++ [(owner.kind, some s.current)] <+:
      inner.analysis.scopes.links := by
    rw [← s.links_entered owner declared]
    exact h.links
  refine ⟨?_, ?_, (List.prefix_append ..).trans hlinks⟩
  · have hparent : inner.analysis.scopes.parent? s.analysis.scopes.scopes.length =
        some s.current := by
      obtain ⟨rest, hrest⟩ := hlinks
      rw [parent?_eq, ← hrest, ← length_links, List.append_assoc, List.getElem?_append_right
        (Nat.le_refl _), Nat.sub_self]
      rfl
    show (inner.analysis.scopes.parent? _).getD rootScope = _
    rw [hparent]
    rfl
  · exact h.mode.trans (mode_register owner _ s.analysis)

end Survey

namespace Visit

variable {settings : Settings} {mode : AnalysisMode} {I : ScopeTree → Prop} {carries : Nat → Prop}

@[simp] theorem after_pure (s : Survey) : after (pure ()) s = s := rfl

@[simp] theorem after_seq (x y : Visit Unit) (s : Survey) :
    after (do x; y) s = y.after (x.after s) :=
  rfl

theorem after_declareAll (scope : Nat) (vs : List Variable) (d : Declaration) (s : Survey) :
    after (vs.forM (declare scope · d)) s =
      { s with analysis := { s.analysis with scopes := s.analysis.scopes.declareAll scope vs d } } := by
  induction vs generalizing s with
  | nil => rfl
  | cons v vs ih =>
    show after (vs.forM (declare scope · d)) (after (declare scope v d) s) = _
    rw [ih]
    rfl

theorem after_opened (owner : Owner) (declared : List Variable) (inner : Visit Unit) (s : Survey) :
    (opened owner declared inner).after s = s.left (inner.after (s.entered owner declared)) := by
  have hentered : after (declared.forM (declare s.analysis.scopes.scopes.length · owner.declaration))
      (after (update (owner.register s.analysis.scopes.scopes.length))
        { analysis := { s.analysis with
            scopes := (s.analysis.scopes.push s.current owner.kind).2 }
          current := s.analysis.scopes.scopes.length }) = s.entered owner declared := by
    rw [after_declareAll]
    cases owner <;> rfl
  rw [← hentered]
  rfl

/-- The visit goes on from every survey, and the property still holds. -/
def Keeps (mode : AnalysisMode) (I : ScopeTree → Prop) (x : Visit Unit) : Prop :=
  ∀ s : Survey, s.IsSound mode → I s.analysis.scopes →
    s.Extends (x.after s) ∧ (x.after s).IsSound mode ∧ I (x.after s).analysis.scopes

namespace Keeps

theorem pure : Keeps mode I (Pure.pure ()) := fun s hs h => ⟨.refl s, hs, h⟩

theorem seq {x y : Visit Unit} (hx : Keeps mode I x) (hy : Keeps mode I y) : Keeps mode I (do x; y) := by
  intro s hs h
  obtain ⟨hextends, hsound, hI⟩ := hx s hs h
  obtain ⟨hextends', hsound', hI'⟩ := hy _ hsound hI
  exact ⟨hextends.trans hextends', hsound', hI'⟩

/-- A visit that leaves the scopes alone. -/
theorem of_scopes {x : Visit Unit}
    (h : ∀ s, (x.after s).current = s.current ∧ (x.after s).analysis.mode = s.analysis.mode ∧
      (x.after s).analysis.scopes = s.analysis.scopes) : Keeps mode I x := by
  intro s hs hI
  obtain ⟨hcurrent, hmode, hscopes⟩ := h s
  have hextends : s.Extends (x.after s) := .of_links hcurrent hmode (by rw [hscopes])
  exact ⟨hextends, hextends.isSound hs (hscopes ▸ hs.rooted), hscopes ▸ hI⟩

/-- A visit that records one access. -/
theorem of_access (hI : Lasts carries I) {x : Visit Unit} (v : Variable) (how : Access)
    (hhow : ∀ node, how = .assignment node true → carries node)
    (h : ∀ s, (x.after s).current = s.current ∧ (x.after s).analysis.mode = s.analysis.mode ∧
      (x.after s).analysis.scopes = (s.analysis.scopes.access s.current v.key how).2) :
    Keeps mode I x := by
  intro s hs hIs
  obtain ⟨hcurrent, hmode, hscopes⟩ := h s
  have hlinks : (x.after s).analysis.scopes.links = s.analysis.scopes.links := by
    rw [hscopes, links_access]
  have hextends : s.Extends (x.after s) := .of_links hcurrent hmode hlinks
  refine ⟨hextends, hextends.isSound hs (hs.rooted.of_links hlinks), ?_⟩
  rw [hscopes]
  exact hI.access v.key how hs.rooted hs.current hhow hIs

theorem opened (hI : Lasts carries I) (owner : Owner) (declared : List Variable)
    {inner : Visit Unit} (hinner : Keeps mode I inner) : Keeps mode I (Visit.opened owner declared inner) := by
  intro s hs h
  have hpush := hs.rooted.push hs.current owner.kind
  have hentered : I (s.entered owner declared).analysis.scopes :=
    hI.declareAll hpush (by rw [length_push]; exact Nat.lt_succ_self _) declared owner.declaration
      (hI.push owner.kind hs.rooted hs.current h)
  obtain ⟨hextends, hsound, hinner⟩ := hinner _ (hs.entered owner declared) hentered
  have hleft := hextends.left owner declared
  rw [after_opened]
  exact ⟨hleft, hleft.isSound hs hsound.rooted, hinner⟩

end Keeps

theorem after_noteType (t : TypeRef) (s : Survey) :
    ((noteType settings t).after s).current = s.current ∧
      ((noteType settings t).after s).analysis.mode = s.analysis.mode ∧
      ((noteType settings t).after s).analysis.scopes = s.analysis.scopes := by
  unfold noteType
  split <;> exact ⟨rfl, rfl, rfl⟩

end Visit

/-! ### Assignments that may carry a declaration -/

mutual

/-- The nodes of assignments that are made as statements. -/
def Move.carriers : Move → List Nat
  | .assignment node _ true _ => [node]
  | .scope _ _ moves => Move.carriersAll moves
  | _ => []

def Move.carriersAll : List Move → List Nat
  | [] => []
  | m :: ms => m.carriers ++ Move.carriersAll ms

end

namespace Move

@[simp] theorem carriersAll_nil : carriersAll [] = [] := rfl

@[simp] theorem carriersAll_cons (m : Move) (ms : List Move) :
    carriersAll (m :: ms) = m.carriers ++ carriersAll ms :=
  rfl

@[simp] theorem carriersAll_append (first moves : List Move) :
    carriersAll (first ++ moves) = carriersAll first ++ carriersAll moves := by
  induction first with
  | nil => rfl
  | cons m first ih => simp [ih]

theorem carriersAll_eq_nil {ms : List Move} (h : ∀ m ∈ ms, m.carriers = []) :
    carriersAll ms = [] := by
  induction ms with
  | nil => rfl
  | cons m ms ih =>
    rw [carriersAll_cons, h m (List.mem_cons_self ..),
      ih fun m' hm => h m' (List.mem_cons_of_mem _ hm)]
    rfl

end Move

namespace Moves

open Move

variable (settings : Settings) (mode : AnalysisMode) (node : Nat)

@[simp] theorem carriers_noteIf (condition : Bool) (t : TypeRef) :
    carriersAll (noteIf condition t) = [] := by
  cases condition <;> rfl

@[simp] theorem carriers_method (m : Option MethodInfo) : carriersAll (method m) = [] := by
  cases m with
  | none => rfl
  | some m => exact carriers_noteIf ..

@[simp] theorem carriers_constant (c : Constant) : carriersAll (constant settings c) = [] := by
  obtain ⟨value, ty⟩ := c
  cases value with
  | closure fields =>
    refine carriersAll_eq_nil fun m hm => ?_
    simp only [constant] at hm
    split at hm
    · obtain ⟨field, -, hm⟩ := List.mem_flatMap.mp hm
      split at hm
      · rw [List.mem_singleton.mp hm]
        rfl
      · cases hm
    · cases hm
  | _ => rfl

@[simp] theorem carriers_values (es : List Expr) : carriersAll (values es) = [] := by
  refine carriersAll_eq_nil fun m hm => ?_
  obtain ⟨e, -, rfl⟩ := List.mem_map.mp hm
  rfl

@[simp] theorem carriers_enclosed (kind : ScopeKind) (e : Expr) (returns : Bool) :
    (enclosed kind e returns).carriers = [] :=
  rfl

@[simp] theorem carriers_sequence (last : Position) (es : List Expr) :
    carriersAll (sequence last es) = [] := by
  induction es with
  | nil => rfl
  | cons e es ih =>
    cases es with
    | nil => rfl
    | cons e' es => exact ih

@[simp] theorem carriers_block (locals : List Variable) (es : List Expr) (ty : TypeRef)
    (role : BlockRole) : (block node locals es ty role).carriers = [] :=
  carriers_sequence ..

@[simp] theorem carriers_arguments (es : List Expr) (ps : List ParameterInfo) :
    carriersAll (arguments es ps) = [] := by
  have hone (e : Expr) (m : PassingMode) : (argument e m).carriers = [] := by
    unfold argument
    split <;> rfl
  induction es generalizing ps with
  | nil => cases ps <;> rfl
  | cons e es ih => cases ps <;> simp [arguments, hone, ih]

theorem carriers_branches (test ifTrue ifFalse : Expr) (returns : Bool) :
    carriersAll (branches test ifTrue ifFalse returns) = [] := by
  unfold branches
  split <;> rfl

theorem carriers_switch (subject : Expr) (cases : List (SwitchCase Expr))
    (defaultBody : Option Expr) (returns : Bool) :
    carriersAll (switch subject cases defaultBody returns) = [] := by
  refine carriersAll_eq_nil fun m hm => ?_
  simp only [switch, values, List.cons_append, List.mem_cons, List.mem_append, List.mem_flatMap,
    List.mem_map, List.not_mem_nil, or_false] at hm
  rcases hm with rfl | ⟨c, -, ⟨e, -, rfl⟩ | rfl⟩ | ⟨e, -, rfl⟩ <;> rfl

theorem carriers_attempt (tried : Expr) (handlers : List (Handler Expr))
    (cleanup fault : Option Expr) (returns : Bool) :
    carriersAll (attempt tried handlers cleanup fault returns) = [] := by
  have hhandler (h : Handler Expr) : (handler returns h).carriers = [] := by
    simp [handler, carriers, body]
  refine carriersAll_eq_nil fun m hm => ?_
  simp only [attempt, List.cons_append, List.mem_cons, List.mem_append, List.mem_map] at hm
  rcases hm with rfl | (⟨h, -, rfl⟩ | ⟨e, -, rfl⟩) | ⟨e, -, rfl⟩
  · rfl
  · exact hhandler h
  · rfl
  · rfl

theorem carriers_assignment (op : BinaryOp) (left right : Expr) (isStatement : Bool) :
    ∀ n ∈ carriersAll (assignment settings node op left right isStatement),
      n = node ∧ isStatement = true := by
  intro n hn
  unfold assignment at hn
  rw [carriersAll_append, carriersAll_cons, carriers_noteIf] at hn
  split at hn
  · split at hn
    · cases isStatement with
      | true => exact ⟨by simpa [carriers] using hn, rfl⟩
      | false => cases hn
    · cases hn
  · cases hn

theorem carriers_value (f : Form Expr) : carriersAll (value settings mode node f) = [] := by
  cases f with
  | binary op left right ty m =>
    unfold value
    dsimp only
    split
    · exact List.eq_nil_iff_forall_not_mem.mpr fun n hn =>
        Bool.false_ne_true (carriers_assignment settings node op left right false n hn).2
    · simp
  | unary op operand ty m =>
    unfold value unary
    simp only [carriersAll_append, carriers_noteIf, carriers_method, List.nil_append]
    split
    · split <;> rfl
    · rfl
  | block locals es ty =>
    unfold value valueBlock
    dsimp only
    split <;> simp [carriers]
  | lambda name parameters lambdaBody returnType ty =>
    have hnotes : carriersAll (parameters.flatMap fun v =>
        noteIf (settings.writesParameterTypes parameters) v.ty) = [] := by
      refine carriersAll_eq_nil fun m hm => ?_
      obtain ⟨v, -, hm⟩ := List.mem_flatMap.mp hm
      unfold noteIf at hm
      split at hm
      · rw [List.mem_singleton.mp hm]
        rfl
      · cases hm
    simp only [value, lambda, carriersAll_cons, carriersAll_nil, List.append_nil, carriers,
      carriersAll_append, hnotes, List.nil_append]
    split <;> rfl
  | call receiver m args =>
    unfold value call
    dsimp only
    split
    · exact carriers_values _
    · simp only [carriersAll_append, carriers_noteIf, carriers_values, carriers_arguments,
        List.nil_append, List.append_nil]
      split
      · refine carriersAll_eq_nil fun m hm => ?_
        obtain ⟨t, -, rfl⟩ := List.mem_map.mp hm
        rfl
      · rfl
  | switch subject cases defaultBody ty => exact carriers_switch ..
  | «try» tried handlers cleanup fault ty => exact carriers_attempt ..
  | jump kind target result ty =>
    unfold value
    dsimp only
    rw [carriersAll_append, carriers_values]
    split <;> rfl
  | _ => simp [value, carriers]

/-- Only an assignment that is made as a statement may carry a declaration. -/
theorem carriers_ofForm (f : Form Expr) (position : Position) :
    ∀ n ∈ carriersAll (ofForm settings mode node f position),
      n = node ∧ position = .statement := by
  have hnone {ms : List Move} (h : carriersAll ms = []) :
      ∀ n ∈ carriersAll ms, n = node ∧ position = .statement := by
    rw [h]
    exact fun n hn => nomatch hn
  have hvalue := hnone (carriers_value settings mode node f)
  cases position with
  | value => exact hvalue
  | statement =>
    cases f with
    | block locals es ty => exact hnone (by simp [ofForm, statement])
    | binary op left right ty m =>
      unfold ofForm statement
      dsimp only
      split
      · intro n hn
        exact ⟨(carriers_assignment settings node op left right true n hn).1, rfl⟩
      · exact hvalue
    | conditional test ifTrue ifFalse ty => exact hnone (carriers_branches ..)
    | _ => exact hvalue
  | returning =>
    cases f with
    | block locals es ty => exact hnone (by simp [ofForm, returning])
    | conditional test ifTrue ifFalse ty =>
      unfold ofForm returning
      dsimp only
      split
      · exact hvalue
      · exact hnone (carriers_branches ..)
    | switch subject cases defaultBody ty => exact hnone (carriers_switch ..)
    | «try» tried handlers cleanup fault ty => exact hnone (carriers_attempt ..)
    | _ => exact hvalue

end Moves

namespace Visit

mutual

theorem keeps_perform (hI : Lasts carries I) : (m : Move) →
    (∀ c ∈ m.visits, Keeps mode I (tree settings c.1 c.2)) →
    (∀ node ∈ m.carriers, carries node) → Keeps mode I (perform settings m)
  | .child e position, hvisits, _ => hvisits (e, position) (List.mem_singleton_self _)
  | .note t, _, _ => .of_scopes (after_noteType t)
  | .jump target, _, _ => .of_scopes fun _ => ⟨rfl, rfl, rfl⟩
  | .reference v isAssigned, _, _ =>
    .of_access hI v (.reference isAssigned) (fun _ h => nomatch h) fun _ => ⟨rfl, rfl, rfl⟩
  | .assignment node v isStatement isTyped, _, hcarriers => by
    refine .of_access hI v (.assignment node isStatement) ?_ fun _ => ⟨rfl, rfl, rfl⟩
    rintro _ ⟨rfl, rfl⟩
    exact hcarriers node (List.mem_singleton_self _)
  | .output node v, _, _ =>
    .of_access hI v (.output (settings.choice .inlineOutputs)) (fun _ h => nomatch h)
      fun _ => ⟨rfl, rfl, rfl⟩
  | .scope owner declared moves, hvisits, hcarriers =>
    .opened hI owner declared (keeps_performAll hI moves hvisits hcarriers)

theorem keeps_performAll (hI : Lasts carries I) : (ms : List Move) →
    (∀ c ∈ Move.visitsAll ms, Keeps mode I (tree settings c.1 c.2)) →
    (∀ node ∈ Move.carriersAll ms, carries node) → Keeps mode I (performAll settings ms)
  | [], _, _ => .pure
  | m :: ms, hvisits, hcarriers =>
    (keeps_perform hI m (fun c hc => hvisits c (List.mem_append_left _ hc))
      fun n hn => hcarriers n (List.mem_append_left _ hn)).seq
    (keeps_performAll hI ms (fun c hc => hvisits c (List.mem_append_right _ hc))
      fun n hn => hcarriers n (List.mem_append_right _ hn))

end

/-- **What lasts through every operation is kept by the visit of a tree.** -/
theorem keeps_tree (hI : Lasts carries I) (e : Expr) (position : Position)
    (h : ∀ x, Meets settings mode e position x .statement → carries x.label) :
    Keeps mode I (tree settings e position) := by
  induction e using Node.induction generalizing position with
  | h node f ih =>
    intro s hs hIs
    rw [after_tree, hs.mode]
    refine keeps_performAll hI _ ?_ ?_ s hs hIs
    · rintro ⟨c, q⟩ hc
      exact ih c (Moves.mem_children_of_visits settings mode hc) q fun x hx => h x (.there hc hx)
    · intro n hn
      obtain ⟨rfl, rfl⟩ := Moves.carriers_ofForm settings mode node f position n hn
      exact h _ (.here ..)

end Visit

/-! ### Lasting properties -/

namespace ScopeTree

theorem lasts_true : Lasts (fun _ => True) fun _ => True :=
  ⟨fun _ _ _ _ => trivial, fun _ _ _ _ _ => trivial, fun _ _ _ _ _ _ => trivial⟩

/-- What holds of a new variable and after every access holds of all variables. -/
theorem lasts_info {carries : Nat → Prop} {P : VariableInfo → Prop}
    (hnew : ∀ key d, P { key, declaration := d })
    (hstep : ∀ (how : Access) start escapes isOutside v,
      (∀ node, how = .assignment node true → carries node) → P v →
        P (how.applied start escapes isOutside v)) :
    Lasts carries fun t => ∀ slot v, t.info? slot = some v → P v := by
  refine ⟨?_, ?_, ?_⟩
  · intro t parent kind _ _ h slot v hv
    rw [info?_push] at hv
    exact h slot v hv
  · intro t i key d _ hi h slot v hv
    rcases declare_cases t hi key d with ⟨_, -, -, heq⟩ | ⟨-, heq⟩
    · exact h slot v (heq ▸ hv)
    · rw [heq] at hv
      split at hv
      · cases hv
        exact hnew key d
      · exact h slot v hv
  · intro t start key how ht hstart hhow h slot v hv
    have hresolved : ∀ slot v, (t.resolve start key).2.info? slot = some v → P v := by
      intro slot v hv
      rcases resolve_cases t ht.nonempty start key with ⟨_, -, -, heq⟩ | ⟨-, heq⟩
      · exact h slot v (heq ▸ hv)
      · rw [heq] at hv
        split at hv
        · cases hv
          exact hnew key .undeclared
        · exact h slot v hv
    rw [Recorded.info?_access t start key how hstart] at hv
    dsimp only at hv
    split at hv
    · obtain ⟨w, hw, rfl⟩ := Option.map_eq_some_iff.mp hv
      exact hstep how _ _ _ w hhow (hresolved slot w hw)
    · exact hresolved slot v hv

/-- What carries a declaration is one of the nodes that may. -/
theorem lasts_carrier (carries : Nat → Prop) :
    Lasts carries fun t => ∀ slot v, t.info? slot = some v → ∀ n, v.carrier = some n → carries n := by
  refine lasts_info (fun _ _ n hn => nomatch hn) fun how start escapes isOutside v hhow hv n hn => ?_
  rw [Access.applied_eq] at hn
  split at hn
  next hmay =>
    cases how with
    | reference isAssigned => cases hmay
    | assignment node isStatement =>
      cases hn
      cases isStatement with
      | true => exact hhow n rfl
      | false => cases hmay
    | output inline => exact hv n hn
  · unfold VariableInfo.used at hn
    dsimp only at hn
    split at hn
    · cases hn
    · exact hv n hn

theorem lasts_uniqueKeys : Lasts (fun _ => True) UniqueKeys :=
  ⟨fun kind _ _ h => UniqueKeys.push h _ kind, fun key d _ _ h => UniqueKeys.declare h _ key d,
    fun key how _ _ _ h => UniqueKeys.access h _ key how⟩

end ScopeTree

/-! ### Finished analyses -/

namespace Survey

/-- The survey before anything is visited. -/
def start (mode : AnalysisMode) : Survey := { analysis := { mode } }

theorem isSound_start (mode : AnalysisMode) : (start mode).IsSound mode :=
  ⟨rfl, Recorded.rooted_start, Recorded.rooted_start.nonempty⟩

end Survey

namespace Visit

/-- At the end only namespaces are added. -/
theorem run_eq (settings : Settings) (mode : AnalysisMode) (e : Expr) (position : Position) :
    ∃ namespaces, run settings mode e position =
      { ((tree settings e position).after (.start mode)).analysis with namespaces } := by
  have hnotes (ts : List TypeRef) (s : Survey) : ∃ namespaces,
      after (ts.forM (noteType settings)) s = { s with analysis := { s.analysis with namespaces } } := by
    induction ts generalizing s with
    | nil => exact ⟨s.analysis.namespaces, rfl⟩
    | cons t ts ih =>
      obtain ⟨namespaces, h⟩ := ih (after (noteType settings t) s)
      refine ⟨namespaces, ?_⟩
      show after (ts.forM (noteType settings)) (after (noteType settings t) s) = _
      rw [h]
      unfold noteType
      split <;> rfl
  obtain ⟨namespaces, h⟩ := hnotes
    (declaredTypes settings ((tree settings e position).after (.start mode)).analysis)
    ((tree settings e position).after (.start mode))
  exact ⟨namespaces, congrArg Survey.analysis h⟩

variable {e : Expr} {position : Position}

theorem kept_run (hI : Lasts carries I) (hstart : I {})
    (h : ∀ x, Meets settings mode e position x .statement → carries x.label) :
    I (run settings mode e position).scopes := by
  obtain ⟨namespaces, hrun⟩ := run_eq settings mode e position
  rw [hrun]
  exact (keeps_tree hI e position h _ (Survey.isSound_start mode) hstart).2.2

/-- **The assignment that carries a declaration was met as a statement.** -/
theorem meets_of_carrier {slot : Slot} {v : VariableInfo}
    (hv : (run settings mode e position).scopes.info? slot = some v) {n : Nat}
    (hn : v.carrier = some n) : ∃ x, Meets settings mode e position x .statement ∧ x.label = n := by
  have hstart : ∀ slot v, ({} : ScopeTree).info? slot = some v → ∀ n, v.carrier = some n →
      ∃ x, Meets settings mode e position x .statement ∧ x.label = n := by
    rintro ⟨i, j⟩ v hv
    cases i <;> cases hv
  exact kept_run (lasts_carrier _) hstart (fun x hx => ⟨x, hx, rfl⟩) slot v hv n hn

theorem uniqueKeys_run : (run settings mode e position).scopes.UniqueKeys := by
  refine kept_run lasts_uniqueKeys ?_ fun _ _ => trivial
  intro i keys hkeys
  cases i with
  | zero =>
    cases hkeys
    exact List.nodup_nil
  | succ i => cases hkeys

end Visit

end TreeScribe
