import TreeScribe.Proofs.Render.Requests.Fits

/-! The visits of each construct cover its pieces. -/
namespace TreeScribe

open Move Moves

section Covers

variable {strict : Prop} {leads : Nat → Prop} {visits visits' : List (Expr × Position)}

/-- All of these were visited as values, except for leaves. -/
def Seen (visits : List (Expr × Position)) (es : List Expr) : Prop :=
  ∀ e ∈ es, e.isLeaf = true ∨ (e, .value) ∈ visits

theorem Seen.cons_left {e : Expr} {es : List Expr} (h : Seen visits (e :: es)) :
    e.isLeaf = true ∨ (e, .value) ∈ visits :=
  h e (List.mem_cons_self ..)

theorem Seen.cons_right {e : Expr} {es : List Expr} (h : Seen visits (e :: es)) : Seen visits es :=
  fun e' he => h e' (List.mem_cons_of_mem _ he)

theorem seen_values (es : List Expr) : Seen (visitsAll (Moves.values es)) es := by
  intro e he
  rw [visits_values]
  exact .inr (List.mem_map_of_mem he)

/-- An argument that is passed by reference is a variable, and any other one is visited. -/
theorem seen_arguments (es : List Expr) (ps : List ParameterInfo) :
    Seen (visitsAll (Moves.arguments es ps)) es := by
  have hone (e : Expr) (m : PassingMode) : e.isLeaf = true ∨ (e, .value) ∈ (Moves.argument e m).visits := by
    unfold Moves.argument
    split
    next h => exact .inl (Node.isLeaf_of_asParameter? h)
    next h => exact .inl (Node.isLeaf_of_asParameter? h)
    · exact .inr (List.mem_singleton_self _)
  have hcons {e : Expr} {es : List Expr} {m : PassingMode} {moves : List Move}
      (h : Seen (visitsAll moves) es) : Seen (visitsAll (Moves.argument e m :: moves)) (e :: es) := by
    intro e' he'
    rcases List.mem_cons.mp he' with rfl | he'
    · exact (hone e' m).imp id fun h => List.mem_append_left _ h
    · exact (h e' he').imp id fun h => List.mem_append_right _ h
  induction es generalizing ps with
  | nil => exact fun _ h => nomatch h
  | cons e es ih =>
    cases ps with
    | nil => exact hcons (ih [])
    | cons p ps => exact hcons (ih ps)

theorem covers_assignment (settings : Settings) {node : Nat} (hnode : leads node) (op : BinaryOp)
    (left right : Expr) (isStatement : Bool) :
    Covers strict leads (visitsAll (Moves.assignment settings node op left right isStatement))
      (Arrangement.assignment node op left right) := by
  have hright : (right, Position.value) ∈
      visitsAll (Moves.assignment settings node op left right isStatement) :=
    List.mem_cons_self ..
  have hleft : left.isLeaf = true ∨ (left, Position.value) ∈
      visitsAll (Moves.assignment settings node op left right isStatement) := by
    cases h : left.asParameter? with
    | some v => exact .inl (Node.isLeaf_of_asParameter? h)
    | none =>
      right
      unfold Moves.assignment
      simp [h, Move.visits]
  refine Covers.append (.lead hnode) (.values fun e he => ?_)
  split at he
  · simp only [List.mem_cons, List.not_mem_nil, or_false] at he
    rcases he with rfl | rfl | rfl
    · exact hleft
    · exact hleft
    · exact .inr hright
  · simp only [List.mem_cons, List.not_mem_nil, or_false] at he
    rcases he with rfl | rfl
    · exact hleft
    · exact .inr hright

theorem covers_arguments {es : List Expr} (h : Seen visits es) (ps : List ParameterInfo) :
    Covers strict leads visits (Arrangement.arguments es ps) := by
  have hone {e : Expr} (h : e.isLeaf = true ∨ (e, .value) ∈ visits) (m : PassingMode) :
      Covers strict leads visits (Arrangement.argument e m) := by
    cases m with
    | value => exact .value h
    | ref => exact .value h
    | out => exact Covers.append .output (.value h)
  induction es generalizing ps with
  | nil => cases ps <;> exact .nil
  | cons e es ih =>
    cases ps with
    | nil => exact (hone h.cons_left .value).append (ih h.cons_right [])
    | cons p ps =>
      rw [Arrangement.arguments]
      split
      next hlast =>
        have helements : Render.isElementArray e = true := by
          rw [Bool.and_eq_true] at hlast
          exact hlast.2
        exact .child (h.cons_left.imp id fun h => ⟨.value, h, helements⟩)
      · exact (hone h.cons_left p.mode).append (ih h.cons_right ps)

theorem covers_access (m : MethodInfo) {args : List Expr} (h : Seen visits args)
    (parameters : List ParameterInfo) :
    Covers strict leads visits (Arrangement.access m args parameters) := by
  unfold Arrangement.access
  split
  · exact covers_arguments h _
  · split
    · exact .nil
    · split
      · exact .values h
      · split
        next last _ hlast =>
          refine Covers.append ?_ (.value (h last (List.mem_of_getLast? hlast)))
          split
          · exact .values fun e he => h e (List.dropLast_subset args he)
          · exact .nil
        · exact covers_arguments h _

theorem covers_call (env : Env) (receiver : Option Expr) (m : MethodInfo) (args : List Expr) :
    Covers strict leads (visitsAll (Moves.call env.settings receiver m args))
      (Arrangement.call env receiver m args) := by
  unfold Moves.call Arrangement.call
  split
  · exact .values_of_visits args
  · have hseen : Seen (visitsAll (noteIf (m.isStatic && !m.isOperator) m.declaring ++
        (if env.settings.writesGenericArgs m then m.genericArgs.map .note else []) ++
        Moves.values receiver.toList ++ Moves.arguments args m.parameters))
        (receiver.toList ++ args) := by
      intro e he
      rw [visitsAll_append, visitsAll_append]
      rcases List.mem_append.mp he with he | he
      · exact (seen_values receiver.toList e he).imp id fun h =>
          List.mem_append_left _ (List.mem_append_right _ h)
      · exact (seen_arguments args m.parameters e he).imp id fun h => List.mem_append_right _ h
    cases receiver with
    | some e => exact (Covers.value hseen.cons_left).append (covers_access m hseen.cons_right _)
    | none =>
      dsimp only at hseen ⊢
      cases m.isExtension with
      | false => exact covers_access m hseen _
      | true =>
        cases args with
        | nil => exact covers_access m hseen _
        | cons e args => exact (Covers.value hseen.cons_left).append (covers_access m hseen.cons_right _)

/-- All expressions of a block are visited as statements, except for the last one. -/
theorem covers_statements (env : Env) {last last' : Position} (afterJump : Bool) {es : List Expr}
    (h : ∀ e ∈ es.getLast?, ∀ afterJump, Fits strict last' e (DocEnding.lastMode last afterJump e)) :
    Covers strict leads (visitsAll (Moves.sequence last' es))
      (Arrangement.statements env last afterJump es) := by
  induction es generalizing afterJump with
  | nil => exact .nil
  | cons e es ih =>
    have hrest (afterJump : Bool) : Covers strict leads (visitsAll (Moves.sequence last' (e :: es)))
        (Arrangement.statements env last afterJump es) := by
      cases es with
      | nil => exact .nil
      | cons e' es => exact (ih afterJump h).mono (List.subset_cons_self ..)
    rw [Arrangement.statements]
    split
    · exact hrest afterJump
    · refine Covers.cons (.child ?_) (hrest _)
      cases es with
      | nil => exact .inr ⟨last', List.mem_cons_self .., h e rfl afterJump⟩
      | cons e' es => exact .inr ⟨.statement, List.mem_cons_self .., trivial⟩

theorem covers_ifStatement {test ifTrue ifFalse : Expr} {returns : Bool} {q q' : Position}
    (htest : (test, .value) ∈ visits) (htrue : (ifTrue, q) ∈ visits)
    (hq : Fits strict q ifTrue (.body returns))
    (hfalse : ifFalse.isEmpty = false → (ifFalse, q') ∈ visits)
    (hq' : Fits strict q' ifFalse (.body returns))
    (hchained : Render.isChained ifFalse returns = true → Fits strict q' ifFalse (.chained returns)) :
    Covers strict leads visits (Arrangement.ifStatement test ifTrue ifFalse returns) := by
  have hlead : Covers strict leads visits
      [.swapped (.child (.inPosition .value) test) (.child (.body returns) ifTrue)] :=
    .swapped (.value (.inr htest)) (.child (.inr ⟨q, htrue, hq⟩))
  unfold Arrangement.ifStatement
  dsimp only
  split
  · exact hlead
  next hempty =>
    have hfalse := hfalse (by simpa using hempty)
    split
    next h => exact hlead.append (.child (.inr ⟨q', hfalse, hchained h⟩))
    · exact hlead.append (.child (.inr ⟨q', hfalse, hq'⟩))

theorem covers_switch (node : Nat) (subject : Expr) (cases : List (SwitchCase Expr)) (defaultBody : Option Expr)
    {returns returns' : Bool} (h : ∀ e, Fits strict (Position.ofBody returns') e (.body returns)) :
    Covers strict leads (visitsAll (Moves.switch subject cases defaultBody returns'))
      (Arrangement.switch node subject cases defaultBody returns) := by
  have hmem {e : Expr} {q : Position} : (e, q) ∈ visitsAll (Moves.switch subject cases defaultBody returns') ↔
      (e, q) = (subject, .value) ∨
        (∃ c ∈ cases, (e ∈ c.tests ∧ q = .value) ∨ (e, q) = (c.body, Position.ofBody returns')) ∨
        (e ∈ defaultBody ∧ q = Position.ofBody returns') := by
    unfold Moves.switch
    rw [List.cons_append, visitsAll_cons, visitsAll_append, visitsAll_flatMap, visitsAll_map]
    simp [Move.visits]
    grind
  refine .cons (.value (.inr (hmem.mpr (.inl rfl)))) (.enclosed (.append (.flatMap fun c hc => ?_) ?_))
  · refine Covers.append (.values fun e he => .inr (hmem.mpr (.inr (.inl ⟨c, hc, .inl ⟨he, rfl⟩⟩)))) ?_
    exact .child (.inr ⟨_, hmem.mpr (.inr (.inl ⟨c, hc, .inr rfl⟩)), h _⟩)
  · cases defaultBody with
    | none => exact .nil
    | some e => exact .child (.inr ⟨_, hmem.mpr (.inr (.inr ⟨rfl, rfl⟩)), h e⟩)

theorem covers_attempt (tried : Expr) (handlers : List (Handler Expr)) (cleanup fault : Option Expr)
    {returns returns' : Bool} (h : ∀ e, Fits strict (Position.ofBody returns') e (.body returns)) :
    Covers strict leads (visitsAll (Moves.attempt tried handlers cleanup fault returns'))
      (Arrangement.attempt tried handlers cleanup fault returns) := by
  have hmem {e : Expr} {q : Position} :
      (e, q) ∈ visitsAll (Moves.attempt tried handlers cleanup fault returns') ↔
      (e, q) = (tried, Position.ofBody returns') ∨
        (∃ h ∈ handlers, (e ∈ h.filter ∧ q = .value) ∨ (e, q) = (h.body, Position.ofBody returns')) ∨
        (e ∈ cleanup ∧ q = .statement) ∨ (e ∈ fault ∧ q = .statement) := by
    unfold Moves.attempt
    rw [List.cons_append, List.cons_append, visitsAll_cons, visitsAll_append, visitsAll_append,
      visitsAll_map, visitsAll_map, visitsAll_map]
    simp [Move.visits, Moves.handler, Moves.body, Position.ofBody]
    grind
  have hcleanup : Covers strict leads (visitsAll (Moves.attempt tried handlers cleanup fault returns'))
      (cleanup.toList.map (Arrangement.body false)) := by
    cases cleanup with
    | none => exact .nil
    | some e => exact .statement (hmem.mpr (.inr (.inr (.inl ⟨rfl, rfl⟩))))
  have hfault : Covers strict leads (visitsAll (Moves.attempt tried handlers cleanup fault returns'))
      (fault.toList.map (Arrangement.body false)) := by
    cases fault with
    | none => exact .nil
    | some e => exact .statement (hmem.mpr (.inr (.inr (.inr ⟨rfl, rfl⟩))))
  refine Covers.append (Covers.append (Covers.cons (.child (.inr ⟨_, hmem.mpr (.inl rfl), h _⟩))
    (.flatMap fun k hk => ?_)) hfault) hcleanup
  have hbody : Covers strict leads (visitsAll (Moves.attempt tried handlers cleanup fault returns'))
      [Arrangement.body returns k.body] :=
    .child (.inr ⟨_, hmem.mpr (.inr (.inl ⟨k, hk, .inr rfl⟩)), h _⟩)
  unfold Arrangement.handler
  split
  next e he => exact .swapped (.value (.inr (hmem.mpr (.inr (.inl ⟨k, hk, .inl ⟨he, rfl⟩⟩))))) hbody
  · exact hbody

/-- A ternary whose branches were visited as statements. -/
theorem covers_ternary (hstrict : ¬strict)
    {test ifTrue ifFalse : Expr} {ty : TypeRef} (hternary : Node.isTernary ifTrue ifFalse ty = true)
    (htest : (test, .value) ∈ visits) (htrue : (ifTrue, .statement) ∈ visits)
    (hfalse : ifFalse.isEmpty = false → (ifFalse, .statement) ∈ visits) :
    Covers strict leads visits (Arrangement.values [test, ifTrue, ifFalse]) := by
  simp only [Node.isTernary, Bool.and_eq_true, Bool.not_eq_true'] at hternary
  refine Covers.cons (.value (.inr htest)) (Covers.cons ?_ ?_)
  · exact .child (.inr ⟨.statement, htrue, .inr ⟨hstrict, rfl, hternary.1.2⟩⟩)
  · cases hempty : ifFalse.isEmpty with
    | true => exact .child (.inl (Node.isLeaf_of_isEmpty hempty))
    | false => exact .child (.inr ⟨.statement, hfalse hempty, .inr ⟨hstrict, rfl, hternary.2⟩⟩)

end Covers

end TreeScribe
