import TreeScribe.Proofs.Analysis.Extracted
import TreeScribe.Proofs.Scope.Uses
import TreeScribe.Proofs.Source.Declarations

/-! Which parameters and caught exceptions are in use.

A lambda owns the scope of its parameters, and a handler that of the exception it catches. A visit
counts an access for each key that is free in the tree it visits, in the scope that finds the key
(`Survey.Counts`). So in the end exactly the variables of such a scope are in use that are free in what
stands in it (`Visit.isUsedIn_run`), and what is left out where it is declared is mentioned
nowhere (`SourcePlan.names_mentioned`). -/
namespace TreeScribe

open ScopeTree Move

/-! ### Frames -/

namespace Node

/-- The handlers of a `try`. -/
def handlers {ι : Type} (n : Node ι) : List (Handler (Node ι)) :=
  match n.form with
  | .try _ handlers _ _ _ => handlers
  | _ => []

/-- The scopes with variables that a lambda or the handlers of a `try` own, each with the keys that
are free in what stands in it. -/
def frames (settings : Settings) (x : Expr) : List (Owner × List Variable × List VariableKey) :=
  (match x.form with
    | .lambda _ parameters body _ _ => [(.lambda x.label, parameters, body.free settings)]
    | _ => []) ++
    x.handlers.map fun h => (.handler h.body.label, h.caught.toList,
      h.filter.toList.flatMap (free settings) ++ h.body.free settings)

end Node

/-- The scopes of lambdas and handlers with their owners. -/
def Analysis.frames (a : Analysis) : List (Owner × Nat) :=
  a.lambdaScopes.map (fun entry => (.lambda entry.1, entry.2)) ++
    a.handlerScopes.map fun entry => (.handler entry.1, entry.2)

/-- The owner is a lambda or a handler. -/
def Owner.isFrame : Owner → Bool
  | .lambda _ | .handler _ => true
  | _ => false

theorem Owner.mem_frames_register {owner : Owner} {scope : Nat} {a : Analysis} {entry : Owner × Nat} :
    entry ∈ (owner.register scope a).frames ↔
      entry ∈ a.frames ∨ (owner.isFrame = true ∧ entry = (owner, scope)) := by
  cases owner with
  | lambda node => simp [register, Analysis.frames, isFrame, or_comm]
  | handler node =>
    simp only [register, Analysis.frames, isFrame, List.map_cons, List.mem_append, List.mem_cons]
    tauto
  | _ => simp [register, Analysis.frames, isFrame]

section Frames

variable (settings : Settings) (opens : Owner → List Variable → List VariableKey → Prop)

mutual

/-- Every scope of a lambda or a handler is opened with certain variables, for certain free keys. -/
def Move.IsFramed : Move → Prop
  | .scope owner declared moves =>
    (owner.isFrame = true → opens owner declared (freeAll settings moves)) ∧ Move.AreFramed moves
  | _ => True

def Move.AreFramed : List Move → Prop
  | [] => True
  | m :: ms => m.IsFramed ∧ Move.AreFramed ms

end

namespace Move

variable {settings opens}

@[simp] theorem areFramed_nil : AreFramed settings opens [] := by simp [AreFramed]

@[simp] theorem areFramed_cons (m : Move) (ms : List Move) :
    AreFramed settings opens (m :: ms) ↔ m.IsFramed settings opens ∧ AreFramed settings opens ms := by
  simp [AreFramed]

@[simp] theorem areFramed_append (first moves : List Move) :
    AreFramed settings opens (first ++ moves) ↔
      AreFramed settings opens first ∧ AreFramed settings opens moves := by
  induction first with
  | nil => simp
  | cons m first ih => simp [ih, and_assoc]

@[simp] theorem areFramed_map {α : Type} (f : α → Move) (as : List α) :
    AreFramed settings opens (as.map f) ↔ ∀ a ∈ as, (f a).IsFramed settings opens := by
  induction as with
  | nil => simp
  | cons a as ih => simp [ih]

@[simp] theorem areFramed_flatMap {α : Type} (f : α → List Move) (as : List α) :
    AreFramed settings opens (as.flatMap f) ↔ ∀ a ∈ as, AreFramed settings opens (f a) := by
  induction as with
  | nil => simp
  | cons a as ih => simp [ih]

end Move

namespace Moves

variable {settings opens} (mode : AnalysisMode) (node : Nat)

@[simp] theorem areFramed_noteIf (condition : Bool) (t : TypeRef) :
    AreFramed settings opens (noteIf condition t) := by
  cases condition <;> simp [noteIf, IsFramed]

@[simp] theorem areFramed_method (m : Option MethodInfo) : AreFramed settings opens (method m) := by
  cases m with
  | none => exact areFramed_nil
  | some m => exact areFramed_noteIf ..

@[simp] theorem areFramed_values (es : List Expr) : AreFramed settings opens (values es) := by
  simp [values, IsFramed]

@[simp] theorem areFramed_constant (c : Constant) : AreFramed settings opens (constant settings c) := by
  obtain ⟨value, ty⟩ := c
  cases value with
  | closure fields =>
    unfold constant
    dsimp only
    split
    · refine (areFramed_flatMap ..).mpr fun field _ => ?_
      split <;> simp [IsFramed]
    · exact areFramed_nil
  | _ => simp [constant, IsFramed]

@[simp] theorem isFramed_enclosed (kind : ScopeKind) (e : Expr) (returns : Bool) :
    (enclosed kind e returns).IsFramed settings opens := by
  simp [enclosed, body, IsFramed, Owner.isFrame]

@[simp] theorem areFramed_sequence (last : Position) (es : List Expr) :
    AreFramed settings opens (sequence last es) := by
  induction es with
  | nil => exact areFramed_nil
  | cons e es ih =>
    cases es with
    | nil => simp [sequence, IsFramed]
    | cons e' es => exact (areFramed_cons ..).mpr ⟨by simp [IsFramed], ih⟩

@[simp] theorem isFramed_block (locals : List Variable) (es : List Expr) (ty : TypeRef)
    (role : BlockRole) : (block node locals es ty role).IsFramed settings opens := by
  simp [block, IsFramed, Owner.isFrame]

@[simp] theorem areFramed_arguments (es : List Expr) (ps : List ParameterInfo) :
    AreFramed settings opens (arguments es ps) := by
  have hone (e : Expr) (m : PassingMode) : (argument e m).IsFramed settings opens := by
    unfold argument
    split <;> simp [IsFramed]
  induction es generalizing ps with
  | nil => cases ps <;> exact areFramed_nil
  | cons e es ih => cases ps <;> simp [arguments, hone, ih]

theorem areFramed_assignment (op : BinaryOp) (left right : Expr) (isStatement : Bool) :
    AreFramed settings opens (assignment settings node op left right isStatement) := by
  unfold assignment
  split
  · split <;> simp [IsFramed]
  · simp [IsFramed]

theorem areFramed_branches (test ifTrue ifFalse : Expr) (returns : Bool) :
    AreFramed settings opens (branches test ifTrue ifFalse returns) := by
  unfold branches
  split <;> simp [IsFramed]

theorem areFramed_switch (subject : Expr) (cases : List (SwitchCase Expr)) (defaultBody : Option Expr)
    (returns : Bool) : AreFramed settings opens (switch subject cases defaultBody returns) := by
  simp [switch, IsFramed]

/-- A `try` opens the scopes of its handlers. -/
theorem areFramed_attempt (tried : Expr) (handlers : List (Handler Expr)) (cleanup fault : Option Expr)
    (returns : Bool)
    (h : ∀ h ∈ handlers, opens (.handler h.body.label) h.caught.toList
      (h.filter.toList.flatMap (Node.free settings) ++ h.body.free settings)) :
    AreFramed settings opens (attempt tried handlers cleanup fault returns) := by
  have hhandler : ∀ h ∈ handlers, (handler returns h).IsFramed settings opens := by
    intro x hx
    simpa [handler, body, IsFramed, Move.free] using fun _ => h x hx
  simpa [attempt] using hhandler

/-- A visit of a node opens the scopes of its frames. -/
theorem areFramed_ofForm (f : Form Expr) (position : Position)
    (h : ∀ frame ∈ (Node.mk node f : Expr).frames settings, opens frame.1 frame.2.1 frame.2.2) :
    AreFramed settings opens (ofForm settings mode node f position) := by
  have hvalue : AreFramed settings opens (value settings mode node f) := by
    cases f with
    | binary op left right ty m =>
      unfold value
      dsimp only
      split
      · exact areFramed_assignment ..
      · simp
    | unary op operand ty m =>
      unfold value unary
      simp only [areFramed_append, areFramed_noteIf, areFramed_method, true_and]
      split
      · split <;> simp [IsFramed]
      · exact areFramed_nil
    | block locals es ty =>
      unfold value valueBlock
      dsimp only
      split <;> simp [IsFramed, Owner.isFrame]
    | lambda name parameters lambdaBody returnType ty =>
      have hfree : freeAll settings (parameters.flatMap fun v =>
          noteIf (settings.writesParameterTypes parameters) v.ty) = [] := by
        rw [freeAll_flatMap, List.flatMap_eq_nil_iff]
        exact fun _ _ => free_noteIf ..
      have hopens : opens (.lambda node) parameters (lambdaBody.free settings) :=
        h _ (List.mem_singleton_self _)
      unfold value lambda
      rw [areFramed_cons, IsFramed, freeAll_append, hfree]
      split <;> simpa [IsFramed, Move.free, body] using fun _ => hopens
    | call receiver m args =>
      unfold value call
      dsimp only
      split
      · simp
      · split <;> simp [IsFramed]
    | switch subject cases defaultBody ty => exact areFramed_switch ..
    | «try» tried handlers cleanup fault ty =>
      exact areFramed_attempt _ _ _ _ _ fun x hx => h _ (List.mem_map_of_mem hx)
    | jump kind target result ty =>
      unfold value
      dsimp only
      split <;> simp [IsFramed]
    | _ => simp [value, IsFramed]
  cases position with
  | value => exact hvalue
  | statement =>
    cases f with
    | block locals es ty => simp [ofForm, statement]
    | binary op left right ty m =>
      unfold ofForm statement
      dsimp only
      split
      · exact areFramed_assignment ..
      · exact hvalue
    | conditional test ifTrue ifFalse ty => exact areFramed_branches ..
    | _ => exact hvalue
  | returning =>
    cases f with
    | block locals es ty => simp [ofForm, returning]
    | conditional test ifTrue ifFalse ty =>
      unfold ofForm returning
      dsimp only
      split
      · exact hvalue
      · exact areFramed_branches ..
    | switch subject cases defaultBody ty => exact areFramed_switch ..
    | «try» tried handlers cleanup fault ty =>
      exact areFramed_attempt _ _ _ _ _ fun x hx => h _ (List.mem_map_of_mem hx)
    | _ => exact hvalue

end Moves

end Frames

/-! ### What a visit counts -/

namespace Survey

variable {settings : Settings} {mode : AnalysisMode} {s s' s'' : Survey}

/-- The variables of a new scope are declared as its owner has it, and not used yet. -/
theorem info?_entered_self (s : Survey) (owner : Owner) (declared : List Variable) {j : Nat}
    {v : VariableInfo} (hv : (s.entered owner declared).analysis.scopes.info?
      ⟨s.analysis.scopes.scopes.length, j⟩ = some v) :
    v.declaration = owner.declaration ∧ v.isUsed = false := by
  have hall (t : ScopeTree) {k : Nat} (hk : k < t.scopes.length) (vs : List Variable)
      (h : ∀ j v, t.info? ⟨k, j⟩ = some v → v.declaration = owner.declaration ∧ v.isUsed = false) :
      ∀ j v, (t.declareAll k vs owner.declaration).info? ⟨k, j⟩ = some v →
        v.declaration = owner.declaration ∧ v.isUsed = false := by
    induction vs generalizing t with
    | nil => exact h
    | cons w ws ih =>
      refine ih _ (by rwa [← length_links, links_declare, length_links]) fun j v hv => ?_
      rcases declare_cases t hk w.key owner.declaration with ⟨_, -, -, heq⟩ | ⟨-, heq⟩
      · exact h j v (heq ▸ hv)
      · rw [heq] at hv
        split at hv
        · cases hv
          exact ⟨rfl, rfl⟩
        · exact h j v hv
  refine hall (s.analysis.scopes.push s.current owner.kind).2 ?_ declared ?_ j v hv
  · rw [length_push]
    exact Nat.lt_succ_self _
  · intro j v hv
    rw [info?_push] at hv
    obtain ⟨scope, hscope, -⟩ := Option.bind_eq_some_iff.mp hv
    exact absurd (List.getElem?_eq_some_iff.mp hscope).1 (Nat.lt_irrefl _)

/-- From the one survey to the other an access is counted for each of the keys, by the scope that finds
it, and the new scopes of lambdas and handlers count what is free in them. -/
structure Counts (settings : Settings) (mode : AnalysisMode) (keys : List VariableKey)
    (opens : Owner → List Variable → List VariableKey → Prop) (s s' : Survey) : Prop
    extends s.Uses settings mode keys (fun _ => True) s' where
  settled : ∀ i, i ≠ rootScope → i < s.analysis.scopes.scopes.length →
    s.analysis.scopes.IsSettled i → s'.analysis.scopes.IsSettled i
  counted : ∀ i, i ≠ rootScope → i < s.analysis.scopes.scopes.length →
    s.analysis.scopes.IsSettled i → ∀ key, s'.analysis.scopes.IsUsed i key ↔
      s.analysis.scopes.IsUsed i key ∨ key ∈ keys ∧ s.analysis.scopes.Finds s.current key i
  frames : ∀ entry ∈ s'.analysis.frames, entry ∈ s.analysis.frames ∨
    ((s.analysis.scopes.scopes.length ≤ entry.2 ∧ entry.2 < s'.analysis.scopes.scopes.length) ∧
      s'.analysis.scopes.IsSettled entry.2 ∧ ∃ declared inner, opens entry.1 declared inner ∧
        ∀ key, s'.analysis.scopes.IsUsed entry.2 key ↔ (∃ v ∈ declared, v.key = key) ∧ key ∈ inner)

namespace Counts

variable {keys keys' : List VariableKey} {opens opens' : Owner → List Variable → List VariableKey → Prop}

theorem of_scopes (huses : s.Uses settings mode [] (fun _ => True) s')
    (hscopes : s'.analysis.scopes = s.analysis.scopes)
    (hframes : s'.analysis.frames = s.analysis.frames) : Counts settings mode [] opens s s' := by
  refine ⟨huses, fun i _ _ h => hscopes ▸ h, fun i _ _ _ key => ?_, fun entry h => .inl (hframes ▸ h)⟩
  simp [hscopes]

theorem access (hs : s.IsSound mode) (v : Variable) (how : Access)
    (huses : s.Uses settings mode [v.key] (fun _ => True) s')
    (hscopes : s'.analysis.scopes = (s.analysis.scopes.access s.current v.key how).2)
    (hframes : s'.analysis.frames = s.analysis.frames) :
    Counts settings mode [v.key] opens s s' := by
  refine ⟨huses, fun i hroot _ h => ?_, fun i hroot _ h key => ?_, fun entry h => .inl (hframes ▸ h)⟩
  · rw [hscopes]
    exact isSettled_access hs.rooted hs.current hroot h v.key how
  · rw [hscopes]
    exact isUsed_access hs.rooted hs.current hroot h v.key how key

theorem mono (h : Counts settings mode keys opens s s')
    (hopens : ∀ o d is, opens o d is → opens' o d is) : Counts settings mode keys opens' s s' := by
  refine ⟨h.toUses, h.settled, h.counted, fun entry hentry => (h.frames entry hentry).imp_right ?_⟩
  rintro ⟨hnew, hsettled, declared, inner, hopened, hused⟩
  exact ⟨hnew, hsettled, declared, inner, hopens _ _ _ hopened, hused⟩

theorem congr (h : Counts settings mode keys opens s s') (hkeys : ∀ key, key ∈ keys ↔ key ∈ keys') :
    Counts settings mode keys' opens s s' := by
  refine ⟨h.toUses.congr hkeys, h.settled, fun i hroot hi hsettled key => ?_, h.frames⟩
  rw [h.counted i hroot hi hsettled, hkeys]

/-- What a scope finds stays so. -/
theorem finds_iff (hs : s.IsSound mode) (h : Counts settings mode keys opens s s') {i : Nat}
    (hroot : i ≠ rootScope) (key : VariableKey) :
    s'.analysis.scopes.Finds s.current key i ↔ s.analysis.scopes.Finds s.current key i :=
  finds_of_growth hs.rooted.parentsBelow h.sound.rooted.parentsBelow h.grows.links h.declared
    hs.current hroot

theorem trans (hs : s.IsSound mode) (h : Counts settings mode keys opens s s')
    (h' : Counts settings mode keys' opens s' s'') : Counts settings mode (keys ++ keys') opens s s'' := by
  have hpos : 0 < s.analysis.scopes.scopes.length := hs.rooted.nonempty
  refine ⟨h.toUses.trans hs h'.toUses, fun i hroot hi hsettled => ?_, fun i hroot hi hsettled key => ?_,
    fun entry hentry => ?_⟩
  · exact h'.settled i hroot (Nat.lt_of_lt_of_le hi h.length_le) (h.settled i hroot hi hsettled)
  · rw [h'.counted i hroot (Nat.lt_of_lt_of_le hi h.length_le) (h.settled i hroot hi hsettled),
      h.counted i hroot hi hsettled, h.grows.current, h.finds_iff hs hroot, List.mem_append, or_assoc,
      or_and_right]
  · rcases h'.frames entry hentry with hentry | ⟨⟨hnew, hlt⟩, hrest⟩
    · rcases h.frames entry hentry with hentry | ⟨⟨hnew, hlt⟩, hsettled, declared, inner, hopened, hused⟩
      · exact .inl hentry
      · have hroot : entry.2 ≠ rootScope := Nat.ne_of_gt (Nat.lt_of_lt_of_le hpos hnew)
        refine .inr ⟨⟨hnew, Nat.lt_of_lt_of_le hlt h'.length_le⟩, h'.settled _ hroot hlt hsettled,
          declared, inner, hopened, fun key => ?_⟩
        rw [h'.counted _ hroot hlt hsettled, hused]
        refine or_iff_left fun ⟨_, hfinds⟩ => ?_
        -- the scope is not around the one where the visit goes on
        have hle : entry.2 ≤ s'.current := (hfinds.inside h.sound.rooted.parentsBelow).le
          h.sound.rooted.parentsBelow
        rw [h.grows.current] at hle
        exact absurd (Nat.lt_of_le_of_lt hle hs.current) (Nat.not_lt.mpr hnew)
    · exact .inr ⟨⟨h.length_le.trans hnew, hlt⟩, hrest⟩

end Counts

/-- From a new scope a key is found there if it is declared there, and else as before. -/
theorem finds_entered (hs : s.IsSound mode) (owner : Owner) (declared : List Variable)
    {key : VariableKey} {i : Nat} : (s.entered owner declared).analysis.scopes.Finds
        s.analysis.scopes.scopes.length key i ↔
      ((∃ v ∈ declared, v.key = key) ∧ i = s.analysis.scopes.scopes.length) ∨
        (¬∃ v ∈ declared, v.key = key) ∧
          (s.entered owner declared).analysis.scopes.Finds s.current key i := by
  have hbelow := (hs.entered owner declared).rooted.parentsBelow
  rw [ScopeTree.finds_iff hbelow, s.declares_entered, s.parent?_entered]
  simp

theorem finds_entered_of_lt (hs : s.IsSound mode) (owner : Owner) (declared : List Variable)
    {key : VariableKey} {i : Nat} (hroot : i ≠ rootScope) :
    (s.entered owner declared).analysis.scopes.Finds s.current key i ↔
      s.analysis.scopes.Finds s.current key i :=
  finds_of_growth hs.rooted.parentsBelow (hs.entered owner declared).rooted.parentsBelow
    (s.links_le_entered owner declared) (fun _ _ hj => s.keys?_entered owner declared (Nat.ne_of_lt hj))
    hs.current hroot

/-- **What is counted in a scope of its own is counted outside, but for the variables of the scope,
and these are counted by it.** -/
theorem Counts.opened {keys : List VariableKey}
    {opens : Owner → List Variable → List VariableKey → Prop} (hs : s.IsSound mode) (owner : Owner)
    (declared : List Variable) {inner : Survey}
    (h : Counts settings mode keys opens (s.entered owner declared) inner)
    (hmethod : ∀ self, owner = .method self →
      declared = [] ∧ True ∧ ∀ key, key ∈ keys ↔ key ∈ self.free settings)
    (hopens : owner.isFrame = true → opens owner declared keys) :
    Counts settings mode (unbound declared keys) opens s (s.left inner) := by
  have hpos : 0 < s.analysis.scopes.scopes.length := hs.rooted.nonempty
  have hlength := s.length_entered owner declared
  have hself : s.analysis.scopes.scopes.length <
      (s.entered owner declared).analysis.scopes.scopes.length := by
    omega
  have hsettled {i : Nat} (hi : i < s.analysis.scopes.scopes.length) :=
    isSettled_congr (s.info?_entered owner declared hi)
  refine ⟨h.toUses.opened hs owner declared hmethod, fun i hroot hi hsettle => ?_,
    fun i hroot hi hsettle key => ?_, fun entry hentry => ?_⟩
  · exact h.settled i hroot (Nat.lt_trans hi hself) ((hsettled hi).mpr hsettle)
  · refine (h.counted i hroot (Nat.lt_trans hi hself) ((hsettled hi).mpr hsettle) key).trans ?_
    rw [isUsed_congr (s.info?_entered owner declared hi)]
    refine or_congr_right ?_
    show key ∈ keys ∧ Finds _ s.analysis.scopes.scopes.length key i ↔ _
    rw [finds_entered hs, finds_entered_of_lt hs owner declared hroot, mem_unbound, and_assoc]
    refine and_congr_right fun _ => ?_
    simp [Nat.ne_of_lt hi]
  · rcases h.frames entry hentry with hentry | ⟨⟨hnew, hlt⟩, hrest⟩
    · rcases Owner.mem_frames_register.mp hentry with hentry | ⟨hframe, rfl⟩
      · exact .inl hentry
      · have hundeclared : owner.declaration = .undeclared := by
          cases owner <;> first | rfl | cases hframe
        have hroot : s.analysis.scopes.scopes.length ≠ rootScope := Nat.ne_of_gt hpos
        have hentered : (s.entered owner declared).analysis.scopes.IsSettled
            s.analysis.scopes.scopes.length := by
          intro j v hv
          exact (s.info?_entered_self owner declared hv).1.trans hundeclared
        refine .inr ⟨⟨Nat.le_refl _, Nat.lt_of_lt_of_le hself h.length_le⟩,
          h.settled _ hroot hself hentered, declared, keys, hopens hframe, fun key => ?_⟩
        refine (h.counted _ hroot hself hentered key).trans ?_
        have hunused : ¬(s.entered owner declared).analysis.scopes.IsUsed
            s.analysis.scopes.scopes.length key := by
          rintro ⟨j, v, hv, -, hused⟩
          rw [(s.info?_entered_self owner declared hv).2] at hused
          cases hused
        show _ ∨ key ∈ keys ∧ Finds _ s.analysis.scopes.scopes.length key _ ↔ _
        rw [finds_entered hs, or_iff_right hunused, and_comm]
        refine and_congr_left fun _ => ?_
        refine ⟨fun hfound => hfound.elim And.left fun ⟨_, hfinds⟩ => ?_, fun hdeclared => .inl ⟨hdeclared, rfl⟩⟩
        have hbelow := (hs.entered owner declared).rooted.parentsBelow
        exact absurd hs.current (Nat.not_lt.mpr ((hfinds.inside hbelow).le hbelow))
    · exact .inr ⟨⟨(Nat.le_of_lt hself).trans hnew, hlt⟩, hrest⟩

end Survey

namespace Visit

variable {settings : Settings} {mode : AnalysisMode}
  {opens : Owner → List Variable → List VariableKey → Prop}

mutual

theorem counts_perform : (m : Move) →
    (∀ c ∈ m.visits, ∀ s : Survey, s.IsSound mode →
      s.Counts settings mode (c.1.free settings) opens ((tree settings c.1 c.2).after s)) →
    m.IsProper settings (fun _ => True) → m.IsFramed settings opens → ∀ s : Survey, s.IsSound mode →
      s.Counts settings mode (m.free settings) opens ((perform settings m).after s)
  | .child e position, hvisits, _, _, s, hs => hvisits (e, position) (List.mem_singleton_self _) s hs
  | .note t, _, _, _, s, hs => by
    have hnoted : ((noteType settings t).after s).analysis.extracted = s.analysis.extracted ∧
        ((noteType settings t).after s).analysis.frames = s.analysis.frames := by
      unfold noteType
      split <;> exact ⟨rfl, rfl⟩
    obtain ⟨hcurrent, hmode, hscopes⟩ := @after_noteType settings t s
    exact .of_scopes (.of_scopes hs hcurrent hmode hscopes hnoted.1) hscopes hnoted.2
  | .jump target, _, _, _, s, hs => .of_scopes (.of_scopes hs rfl rfl rfl rfl) rfl rfl
  | .reference v isAssigned, _, _, _, s, hs =>
    .access hs v (.reference isAssigned) (.access hs v _ rfl rfl rfl rfl) rfl rfl
  | .assignment node v isStatement isTyped, _, _, _, s, hs =>
    .access hs v (.assignment node isStatement) (.access hs v _ rfl rfl rfl rfl) rfl rfl
  | .output node v, _, _, _, s, hs =>
    .access hs v (.output (settings.choice .inlineOutputs)) (.access hs v _ rfl rfl rfl rfl) rfl rfl
  | .scope owner declared moves, hvisits, hproper, hframed, s, hs => by
    obtain ⟨hmethod, hmoves⟩ := Move.isProper_scope_iff.mp hproper
    rw [Move.IsFramed] at hframed
    rw [perform, after_opened]
    exact (counts_performAll moves hvisits hmoves hframed.2 _ (hs.entered owner declared)).opened hs
      owner declared hmethod hframed.1

theorem counts_performAll : (ms : List Move) →
    (∀ c ∈ Move.visitsAll ms, ∀ s : Survey, s.IsSound mode →
      s.Counts settings mode (c.1.free settings) opens ((tree settings c.1 c.2).after s)) →
    Move.AreProper settings (fun _ => True) ms → Move.AreFramed settings opens ms →
      ∀ s : Survey, s.IsSound mode →
        s.Counts settings mode (Move.freeAll settings ms) opens ((performAll settings ms).after s)
  | [], _, _, _, s, hs => .of_scopes (.of_scopes hs rfl rfl rfl rfl) rfl rfl
  | m :: ms, hvisits, hproper, hframed, s, hs => by
    obtain ⟨hm, hms⟩ := (Move.areProper_cons m ms).mp hproper
    obtain ⟨hmframed, hmsframed⟩ := (Move.areFramed_cons m ms).mp hframed
    have hfirst := counts_perform m (fun c hc => hvisits c (List.mem_append_left _ hc)) hm hmframed s hs
    exact hfirst.trans hs (counts_performAll ms (fun c hc => hvisits c (List.mem_append_right _ hc)) hms
      hmsframed _ hfirst.sound)

end

/-- **A visit counts the free variables of its tree, and opens scopes for the frames in it.** -/
theorem counts_tree (e : Expr) (position : Position) (s : Survey) (hs : s.IsSound mode) :
    s.Counts settings mode (e.free settings)
      (fun o d is => ∃ x ∈ e.nodes, (o, d, is) ∈ x.frames settings)
      ((tree settings e position).after s) := by
  induction e using Node.induction generalizing position s with
  | h node f ih =>
    rw [after_tree, hs.mode]
    refine (counts_performAll _ ?_ ?_ ?_ s hs).congr (Moves.mem_free_ofForm settings mode node f position)
    · rintro ⟨c, q⟩ hc s hs
      have hmem := Moves.mem_children_of_visits settings mode hc
      refine (ih c hmem q s hs).mono ?_
      rintro o d is ⟨x, hx, hframe⟩
      exact ⟨x, Node.mem_nodes_of_mem hmem hx, hframe⟩
    · exact Moves.areProper_ofForm mode node f position fun _ _ _ => trivial
    · exact Moves.areFramed_ofForm mode node f position fun frame hframe =>
        ⟨_, Node.mem_nodes_self _, hframe⟩

/-- In a finished analysis, the scope of a lambda or handler uses what is free in it. -/
theorem counts_run {e : Expr} {position : Position} {entry : Owner × Nat}
    (h : entry ∈ (run settings mode e position).frames) :
    entry.2 < (run settings mode e position).scopes.scopes.length ∧
      ∃ declared inner, (∃ x ∈ e.nodes, (entry.1, declared, inner) ∈ x.frames settings) ∧
        ∀ key, (run settings mode e position).scopes.IsUsed entry.2 key ↔
          (∃ v ∈ declared, v.key = key) ∧ key ∈ inner := by
  obtain ⟨namespaces, hrun⟩ := run_eq settings mode e position
  rw [hrun] at h ⊢
  have hcounts : Survey.Counts settings mode _ _ _ _ :=
    counts_tree e position _ (Survey.isSound_start mode)
  rcases hcounts.frames entry h with hentry | ⟨⟨-, hlt⟩, -, hused⟩
  · cases hentry
  · exact ⟨hlt, hused⟩

end Visit

/-- A scope is in use for the variables that it uses. -/
theorem Analysis.isUsedIn_some (a : Analysis) {i : Nat} (hi : i < a.scopes.scopes.length) (v : Variable) :
    a.isUsedIn (some i) v = true ↔ a.scopes.IsUsed i v.key := by
  obtain ⟨s, hs⟩ : ∃ s, a.scopes.scope? i = some s := ⟨_, List.getElem?_eq_getElem hi⟩
  unfold isUsedIn ScopeTree.IsUsed ScopeTree.info?
  simp only [Option.bind_some, hs, List.any_eq_true, Bool.and_eq_true, beq_iff_eq]
  constructor
  · rintro ⟨x, hx, hkey, hused⟩
    obtain ⟨j, hj⟩ := List.mem_iff_getElem?.mp hx
    exact ⟨j, x, hj, hkey, hused⟩
  · rintro ⟨j, x, hx, hkey, hused⟩
    exact ⟨x, List.mem_of_getElem? hx, hkey, hused⟩

/-! ### Owners -/

namespace Node

open scoped List

theorem sublist_handlers {ι : Type} (n : Node ι) : n.handlers.map (·.body) <+ n.form.children := by
  obtain ⟨l, f⟩ := n
  cases f with
  | «try» tried hs cleanup fault ty =>
    have hbodies : hs.map (·.body) <+ hs.flatMap fun h => h.filter.toList ++ [h.body] := by
      induction hs with
      | nil => exact .slnil
      | cons h hs ih =>
        rw [List.map_cons, List.flatMap_cons, List.append_assoc]
        exact (ih.cons_cons h.body).trans (List.sublist_append_right ..)
    exact (hbodies.trans (List.sublist_cons_self ..)).trans
      ((List.sublist_append_left ..).trans (List.sublist_append_left ..))
  | _ => exact List.nil_sublist _

/-- The bodies of handlers are at different places below the root. -/
theorem subperm_handlers {ι : Type} (n : Node ι) :
    (n.nodes.flatMap handlers).map (·.body.label) <+~ n.form.children.flatMap labels := by
  induction n using Node.induction with
  | h l f ih =>
    have hself : (Node.mk l f).handlers.map (·.body.label) <+ f.children.map label := by
      have hbodies := (sublist_handlers (.mk l f)).map label
      rwa [List.map_map] at hbodies
    have hchildren : f.children.flatMap (fun c => (c.nodes.flatMap handlers).map (·.body.label)) <+~
        f.children.flatMap fun c => c.form.children.flatMap labels := by
      generalize f.children = cs at ih
      induction cs with
      | nil => exact .refl _
      | cons c cs ihs =>
        exact (ih c (List.mem_cons_self ..)).append (ihs fun c hc => ih c (List.mem_cons_of_mem _ hc))
    rw [nodes_mk, List.flatMap_cons, List.map_append, List.flatMap_assoc, List.map_flatMap]
    refine (hself.subperm.append hchildren).trans ?_
    have hlabels : f.children.flatMap labels =
        f.children.flatMap fun c => c.label :: c.form.children.flatMap labels :=
      List.flatMap_congr fun ⟨l, f⟩ _ => labels_mk l f
    show _ <+~ f.children.flatMap labels
    rw [hlabels]
    exact (List.map_append_flatMap_perm ..).subperm

theorem mem_frames_lambda {settings : Settings} {x : Expr} {l : Nat} {d : List Variable}
    {is : List VariableKey} (h : (.lambda l, d, is) ∈ x.frames settings) :
    x.label = l ∧ x.frames settings = [(.lambda l, d, is)] := by
  obtain ⟨l', f⟩ := x
  cases f with
  | lambda name parameters body returnType ty =>
    cases List.mem_singleton.mp h
    exact ⟨rfl, rfl⟩
  | «try» tried hs cleanup fault ty =>
    obtain ⟨k, -, hk⟩ := List.mem_map.mp h
    cases hk
  | _ => cases h

theorem mem_frames_handler {settings : Settings} {x : Expr} {l : Nat} {d : List Variable}
    {is : List VariableKey} (h : (.handler l, d, is) ∈ x.frames settings) :
    ∃ k ∈ x.handlers, k.body.label = l ∧ d = k.caught.toList ∧
      is = k.filter.toList.flatMap (free settings) ++ k.body.free settings := by
  rcases List.mem_append.mp h with h | h
  · split at h
    · cases List.mem_singleton.mp h
    · cases h
  · obtain ⟨k, hk, heq⟩ := List.mem_map.mp h
    cases heq
    exact ⟨k, hk, rfl, rfl, rfl⟩

/-- Where no node is shared, a frame is determined by its owner. -/
theorem frames_unique {settings : Settings} {e x x' : Expr} (hnodup : e.labels.Nodup) (hx : x ∈ e.nodes)
    (hx' : x' ∈ e.nodes) {o : Owner} (hframe : o.isFrame = true) {d d' : List Variable}
    {is is' : List VariableKey} (h : (o, d, is) ∈ x.frames settings)
    (h' : (o, d', is') ∈ x'.frames settings) : d = d' ∧ is = is' := by
  cases o with
  | lambda l =>
    obtain ⟨hlabel, hframes⟩ := mem_frames_lambda h
    obtain ⟨hlabel', hframes'⟩ := mem_frames_lambda h'
    rw [← map_label_nodes] at hnodup
    obtain rfl := List.inj_on_of_nodup_map hnodup hx hx' (hlabel.trans hlabel'.symm)
    cases hframes.symm.trans hframes'
    exact ⟨rfl, rfl⟩
  | handler l =>
    obtain ⟨k, hk, rfl, rfl, rfl⟩ := mem_frames_handler h
    obtain ⟨k', hk', hlabel, rfl, rfl⟩ := mem_frames_handler h'
    have hbodies : ((e.nodes.flatMap handlers).map (·.body.label)).Nodup := by
      obtain ⟨l, f⟩ := e
      rw [labels_mk, List.nodup_cons] at hnodup
      obtain ⟨bodies, hperm, hsublist⟩ := subperm_handlers (.mk l f)
      exact hperm.nodup_iff.mp (hnodup.2.sublist hsublist)
    obtain rfl := List.inj_on_of_nodup_map hbodies (List.mem_flatMap.mpr ⟨x, hx, hk⟩)
      (List.mem_flatMap.mpr ⟨x', hx', hk'⟩) hlabel.symm
    exact ⟨rfl, rfl⟩
  | _ => cases hframe

end Node

/-! ### All names -/

/-- A parameter under its own name. -/
def Render.namedParameter (env : Env) (typed : Bool) (v : Variable) : Atoms :=
  Atoms.when typed
      (Atoms.when v.isByRef (Atoms.keyword "ref" ++ Atoms.space) ++ env.typeName v.ty ++ Atoms.space) ++
    Atoms.varName v.writtenName

/-- A variable that is mentioned in a lambda or handler is written under its name where it is declared. -/
structure Env.NamesMentioned (env : Env) (e : Expr) : Prop where
  parameter : ∀ x ∈ e.nodes, ∀ name parameters body returnType ty,
    x.form = .lambda name parameters body returnType ty → ∀ v ∈ parameters,
      v.key ∈ body.free env.settings →
        ∀ typed, Render.lambdaParameter env x.label typed v = Render.namedParameter env typed v
  caught : ∀ x ∈ e.nodes, ∀ h : Handler Render.Child, h.map Prod.fst ∈ x.handlers →
    ∀ v, h.caught = some v →
      (v.key ∈ h.body.1.free env.settings ∨ ∃ c ∈ h.filter, v.key ∈ c.1.free env.settings) →
        Render.catchAtoms env h = Atoms.control "catch" ++
          Atoms.bracketed " (" ")" (env.typeName h.test ++ Atoms.space ++ Atoms.varName v.writtenName)

/-- What is mentioned is in use. -/
theorem Visit.isUsedIn_run {settings : Settings} {mode : AnalysisMode} {e : Expr} {position : Position}
    (hnodup : e.labels.Nodup) {x : Expr} (hx : x ∈ e.nodes) {o : Owner} {d : List Variable}
    {is : List VariableKey} (hframe : o.isFrame = true) (h : (o, d, is) ∈ x.frames settings) {v : Variable}
    (hv : v ∈ d) (hkey : v.key ∈ is) {scope : Option Nat}
    (hscope : ∀ i, scope = some i → (o, i) ∈ (run settings mode e position).frames) :
    (run settings mode e position).isUsedIn scope v = true := by
  cases scope with
  | none => rfl
  | some i =>
    obtain ⟨hlt, d', is', ⟨x', hx', h'⟩, hused⟩ := counts_run (hscope i rfl)
    obtain ⟨rfl, rfl⟩ := Node.frames_unique hnodup hx hx' hframe h h'
    exact (Analysis.isUsedIn_some _ hlt v).mpr ((hused v.key).mpr ⟨⟨v, hv, rfl⟩, hkey⟩)

theorem Env.namesMentioned {env : Env} {mode : AnalysisMode} {e : Expr} {position : Position}
    (hanalysis : env.analysis = Visit.run env.settings mode e position) (hnodup : e.labels.Nodup) :
    env.NamesMentioned e := by
  constructor
  · intro x hx name parameters body returnType ty hform v hv hkey typed
    have hframe : (.lambda x.label, parameters, body.free env.settings) ∈ x.frames env.settings := by
      rw [Node.frames, hform]
      exact List.mem_append_left _ (List.mem_singleton_self _)
    have hused : env.analysis.isParameterUsed x.label v = true := by
      unfold Analysis.isParameterUsed
      rw [hanalysis]
      refine Visit.isUsedIn_run hnodup hx rfl hframe hv hkey fun i hi => List.mem_append_left _ ?_
      exact List.mem_map.mpr ⟨(x.label, i), mem_of_lookup hi, rfl⟩
    unfold Render.lambdaParameter Render.namedParameter
    rw [hused, Bool.not_true, Bool.and_false]
    rfl
  · intro x hx h hh v hv hmentioned
    have hframe : (.handler h.body.1.label, [v], (h.map Prod.fst).filter.toList.flatMap
        (Node.free env.settings) ++ h.body.1.free env.settings) ∈ x.frames env.settings := by
      refine List.mem_append_right _ (List.mem_map.mpr ⟨_, hh, ?_⟩)
      simp only [Handler.map, hv]
      rfl
    have hkey : v.key ∈ (h.map Prod.fst).filter.toList.flatMap (Node.free env.settings) ++
        h.body.1.free env.settings := by
      rcases hmentioned with hbody | ⟨c, hc, hfilter⟩
      · exact List.mem_append_right _ hbody
      · refine List.mem_append_left _ (List.mem_flatMap.mpr ⟨c.1, ?_, hfilter⟩)
        rw [Handler.map, hc]
        exact List.mem_singleton_self _
    have hused : env.analysis.isCaughtUsed h.body.1.label v = true := by
      unfold Analysis.isCaughtUsed
      rw [hanalysis]
      refine Visit.isUsedIn_run hnodup hx rfl hframe (List.mem_singleton_self v) hkey fun i hi =>
        List.mem_append_right _ ?_
      exact List.mem_map.mpr ⟨(h.body.1.label, i), mem_of_lookup hi, rfl⟩
    unfold Render.catchAtoms
    rw [hv, Option.filter_some_pos hused]

/-- The quoted lambda `(x, y) => { try { return x; } catch (Exception e) { return e; } }`, with a second
handler that does not mention the exception. -/
def mentioning : Expr :=
  let x : Variable := { name := "x", ty := .int }
  let y : Variable := { name := "y", ty := .int }
  let e : Variable := { name := "e", ty := .exception }
  .mk 0 (.unary .quote (some (.mk 1 (.lambda none [x, y] (.mk 2 (.try (.mk 3 (.parameter x))
    [{ test := .exception, caught := some e, filter := none, body := .mk 4 (.parameter e) },
      { test := .object, caught := some e, filter := none, body := .mk 5 (.parameter x) }]
    none none .int)) .int .object))) .object none)

end TreeScribe
