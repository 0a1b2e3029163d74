import TreeScribe.Proofs.Analysis.Records
import TreeScribe.Proofs.Tree.Keys

/-! The variables that targets hold.

An assignment to a variable and an output argument are recorded with the slot of their variable. A slot
keeps the key of its variable through every operation (`ScopeTree.lasts_holds`), so that in the finished
analysis the slot that is recorded for a node still holds the variable of that node
(`Visit.holds_target`). -/
namespace TreeScribe

open ScopeTree Move Moves

theorem ScopeTree.lasts_holds (carries : Nat → Prop) (slot : Slot) (k : VariableKey) :
    Lasts carries fun t => t.Holds slot k := by
  refine ⟨?_, ?_, ?_⟩
  · intro t parent kind _ _ h
    exact h.push parent kind
  · intro t i key d _ hi h
    exact h.made (declare_cases t hi key d)
  · intro t start key how _ hstart _ h
    exact h.access hstart key how

/-! ### Moves that store -/

/-- The variable that a node stores to, or that it is. -/
def Form.stored? : Form Expr → Option Variable
  | .parameter v => some v
  | .binary _ left _ _ _ => left.asParameter?
  | _ => none

theorem Node.stored?_of_asParameter? {e : Expr} {v : Variable} (h : e.asParameter? = some v) :
    e.form.stored? = some v := by
  obtain ⟨node, form⟩ := e
  cases form <;> first | exact h | cases h

/-- A node of the tree that stores to the variable. -/
def Node.Stores (root : Expr) (node : Nat) (v : Variable) : Prop :=
  ∃ x ∈ root.nodes, x.label = node ∧ x.form.stored? = some v

/-- A step that stores does so on behalf of a node of the tree. -/
def Move.Aims (root : Expr) : Move → Prop
  | .assignment node v _ _ | .output node v => root.Stores node v
  | _ => True

/-- All steps that store do so on behalf of a node of the tree. -/
structure Move.AllAim (root : Expr) (ms : List Move) : Prop where
  aims : ∀ step ∈ stepsAll ms, step.Aims root

namespace Move.AllAim

variable {root : Expr} {ms first : List Move} {m : Move}

theorem nil : AllAim root [] := ⟨fun _ h => absurd h List.not_mem_nil⟩

theorem append (hfirst : AllAim root first) (h : AllAim root ms) : AllAim root (first ++ ms) := by
  refine ⟨fun step hstep => ?_⟩
  rw [stepsAll_append] at hstep
  exact (List.mem_append.mp hstep).elim (hfirst.aims step) (h.aims step)

theorem cons (hm : AllAim root [m]) (h : AllAim root ms) : AllAim root (m :: ms) := hm.append h

theorem scope (h : AllAim root ms) (owner : Owner) (declared : List Variable) :
    AllAim root [.scope owner declared ms] :=
  ⟨fun step hstep => h.aims step (by simpa [steps] using hstep)⟩

theorem one (hm : m.steps = [m]) (h : m.Aims root) : AllAim root [m] := by
  refine ⟨fun step hstep => ?_⟩
  rw [stepsAll_cons, hm] at hstep
  exact List.mem_singleton.mp hstep ▸ h

theorem child (e : Expr) (position : Position) : AllAim root [.child e position] := one rfl trivial

theorem note (t : TypeRef) : AllAim root [.note t] := one rfl trivial

theorem jump (target : Target) : AllAim root [.jump target] := one rfl trivial

theorem reference (v : Variable) (isAssigned : Bool) : AllAim root [.reference v isAssigned] :=
  one rfl trivial

theorem assignment {node : Nat} {v : Variable} (h : root.Stores node v) (isStatement isTyped : Bool) :
    AllAim root [.assignment node v isStatement isTyped] :=
  one rfl h

theorem output {node : Nat} {v : Variable} (h : root.Stores node v) : AllAim root [.output node v] :=
  one rfl h

theorem map {α : Type} {f : α → Move} {as : List α} (h : ∀ a ∈ as, AllAim root [f a]) :
    AllAim root (as.map f) := by
  induction as with
  | nil => exact nil
  | cons a as ih =>
    exact (h a (List.mem_cons_self ..)).cons (ih fun a' ha => h a' (List.mem_cons_of_mem _ ha))

theorem flatMap {α : Type} {f : α → List Move} {as : List α} (h : ∀ a ∈ as, AllAim root (f a)) :
    AllAim root (as.flatMap f) := by
  induction as with
  | nil => exact nil
  | cons a as ih =>
    exact (h a (List.mem_cons_self ..)).append (ih fun a' ha => h a' (List.mem_cons_of_mem _ ha))

theorem noteIf (condition : Bool) (t : TypeRef) : AllAim root (noteIf condition t) := by
  cases condition with
  | true => exact note t
  | false => exact nil

theorem method (m : Option MethodInfo) : AllAim root (Moves.method m) := by
  cases m with
  | none => exact nil
  | some m => exact noteIf ..

theorem values (es : List Expr) : AllAim root (values es) := map fun e _ => child e .value

theorem enclosed (kind : ScopeKind) (e : Expr) (returns : Bool) :
    AllAim root [enclosed kind e returns] :=
  (child e _).scope _ _

theorem sequence (last : Position) (es : List Expr) : AllAim root (sequence last es) := by
  induction es with
  | nil => exact nil
  | cons e es ih =>
    cases es with
    | nil => exact child e last
    | cons e' es => exact (child e .statement).cons ih

theorem constant (settings : Settings) (c : Constant) : AllAim root (constant settings c) := by
  obtain ⟨value, ty⟩ := c
  cases value with
  | type t => exact note t
  | enumMember name => exact note ty
  | closure fields =>
    unfold Moves.constant
    dsimp only
    split
    · refine flatMap fun field _ => ?_
      split
      · exact note _
      · exact nil
    · exact nil
  | _ => exact nil

end Move.AllAim

namespace Moves

variable (settings : Settings) (mode : AnalysisMode) {root : Expr} {node : Nat} {form : Form Expr}

theorem aims_arguments {es : List Expr} (h : es ⊆ root.nodes) (ps : List ParameterInfo) :
    AllAim root (arguments es ps) := by
  have hone {e : Expr} (he : e ∈ root.nodes) (m : PassingMode) : AllAim root [argument e m] := by
    unfold argument
    split
    next v hv => exact .output ⟨e, he, rfl, Node.stored?_of_asParameter? hv⟩
    · exact .reference _ _
    · exact .child _ _
  induction es generalizing ps with
  | nil => cases ps <;> exact .nil
  | cons e es ih =>
    have he := h (List.mem_cons_self ..)
    have hrest := ih fun x hx => h (List.mem_cons_of_mem _ hx)
    cases ps with
    | nil => exact (hone he .value).cons (hrest [])
    | cons p ps => exact (hone he p.mode).cons (hrest ps)

theorem aims_branches (test ifTrue ifFalse : Expr) (returns : Bool) :
    AllAim root (branches test ifTrue ifFalse returns) := by
  refine ((AllAim.child test .value).cons (.enclosed _ ifTrue _)).append ?_
  split
  · exact .nil
  · exact .enclosed ..

theorem aims_switch (subject : Expr) (cases : List (SwitchCase Expr)) (defaultBody : Option Expr)
    (returns : Bool) : AllAim root (switch subject cases defaultBody returns) :=
  ((AllAim.child subject .value).cons (.flatMap fun _ _ => (AllAim.values _).append (.enclosed ..))).append
    (.map fun _ _ => .enclosed ..)

theorem aims_attempt (tried : Expr) (handlers : List (Handler Expr)) (cleanup fault : Option Expr)
    (returns : Bool) : AllAim root (attempt tried handlers cleanup fault returns) := by
  have hhandler (k : Handler Expr) : AllAim root [handler returns k] :=
    (((AllAim.noteIf ..).append (.values _)).append (.child ..)).scope _ _
  exact (((AllAim.enclosed ..).cons (.map fun k _ => hhandler k)).append (.map fun _ _ => .enclosed ..)).append
    (.map fun _ _ => .enclosed ..)

theorem aims_call (receiver : Option Expr) (m : MethodInfo) {args : List Expr} (h : args ⊆ root.nodes) :
    AllAim root (call settings receiver m args) := by
  unfold call
  split
  · exact .values _
  · refine (((AllAim.noteIf ..).append ?_).append (.values _)).append (aims_arguments h _)
    split
    · exact .map fun t _ => .note t
    · exact .nil

variable (h : Node.mk node form ∈ root.nodes)

include h

theorem aims_assignment {op : BinaryOp} {left right : Expr} {ty : TypeRef} {m : Option MethodInfo}
    (hform : form = .binary op left right ty m) (isStatement : Bool) :
    AllAim root (assignment settings node op left right isStatement) := by
  subst hform
  refine ((AllAim.child right .value).cons (.noteIf ..)).append ?_
  split
  next v hv =>
    split
    · exact .assignment ⟨_, h, rfl, hv⟩ _ _
    · exact .reference _ _
  · exact .child ..

theorem aims_value : AllAim root (value settings mode node form) := by
  have hchildren : form.children ⊆ root.nodes := fun c hc =>
    Node.mem_nodes_trans (Node.mem_nodes_of_mem hc c.mem_nodes_self) h
  cases form with
  | constant c => exact .constant settings c
  | parameter v => exact .reference v false
  | binary op left right ty m =>
    unfold value
    dsimp only
    split
    · exact aims_assignment settings h rfl false
    · exact ((AllAim.noteIf ..).append (.method m)).append (.values _)
  | unary op operand ty m =>
    refine (((AllAim.noteIf ..).append (.noteIf ..)).append (.method m)).append ?_
    split
    · split
      · exact .reference _ _
      · exact .child ..
    · exact .nil
  | conditional test ifTrue ifFalse ty => exact .values _
  | block locals es ty =>
    unfold value valueBlock
    dsimp only
    split
    · exact ((AllAim.sequence ..).scope _ _).scope _ _
    · exact (AllAim.sequence ..).scope _ _
  | lambda name parameters lambdaBody returnType ty =>
    refine AllAim.scope (.append (.flatMap fun v _ => .noteIf ..) ?_) _ _
    split <;> exact .child ..
  | call receiver m args =>
    exact aims_call settings receiver m fun e he => hchildren (List.mem_append_right _ he)
  | invoke target args ty => exact .values _
  | member receiver info => exact (AllAim.noteIf ..).append (.values _)
  | new creation => exact (AllAim.noteIf ..).append (aims_arguments hchildren _)
  | newArray elementType expressions bounds => exact (AllAim.noteIf ..).append (.values _)
  | memberInit creation bindings => exact ((AllAim.note _).cons (.values _)).append (.values _)
  | listInit creation items => exact ((AllAim.note _).cons (.values _)).append (.values _)
  | loop loopBody breakTarget continueTarget => exact .enclosed ..
  | jump kind target result ty =>
    refine AllAim.append ?_ (.values _)
    split
    · exact .jump target
    · exact .nil
  | label target defaultValue => exact .values _
  | switch subject cases defaultBody ty => exact aims_switch ..
  | «try» tried handlers cleanup fault ty => exact aims_attempt ..
  | default ty => exact .noteIf ..
  | index object indexer args ty => exact .values _
  | typeTest expression tested exact => exact (AllAim.note _).cons (.child ..)
  | comment s => exact .nil
  | extension name ty display operands => exact .values _

/-- What the visit of a node stores, it stores for the node or one of its children. -/
theorem aims_ofForm (position : Position) : AllAim root (ofForm settings mode node form position) := by
  have hvalue := aims_value settings mode h
  cases position with
  | value => exact hvalue
  | statement =>
    cases form with
    | block locals es ty => exact (AllAim.sequence ..).scope _ _
    | binary op left right ty m =>
      unfold ofForm statement
      dsimp only
      split
      · exact aims_assignment settings h rfl true
      · exact hvalue
    | conditional test ifTrue ifFalse ty => exact aims_branches ..
    | _ => exact hvalue
  | returning =>
    cases form with
    | block locals es ty => exact (AllAim.sequence ..).scope _ _
    | conditional test ifTrue ifFalse ty =>
      unfold ofForm returning
      dsimp only
      split
      · exact hvalue
      · exact aims_branches ..
    | switch subject cases defaultBody ty => exact aims_switch ..
    | «try» tried handlers cleanup fault ty => exact aims_attempt ..
    | _ => exact hvalue

end Moves

/-! ### Targets of a visit -/

/-- The slot of every target holds the variable of its node. -/
def Analysis.Aimed (root : Expr) (a : Analysis) : Prop :=
  ∀ p ∈ a.targets, ∃ v, root.Stores p.1 v ∧ a.scopes.Holds p.2 v.key

namespace Analysis.Aimed

variable {root : Expr} {a b : Analysis}

theorem of_holds (h : a.Aimed root) (htargets : b.targets = a.targets)
    (hholds : ∀ slot key, a.scopes.Holds slot key → b.scopes.Holds slot key) : b.Aimed root := by
  intro p hp
  obtain ⟨v, hstores, hslot⟩ := h p (htargets ▸ hp)
  exact ⟨v, hstores, hholds _ _ hslot⟩

theorem cons (h : a.Aimed root) {node : Nat} {v : Variable} (hstores : root.Stores node v) {slot : Slot}
    (hslot : a.scopes.Holds slot v.key) (hscopes : b.scopes = a.scopes)
    (htargets : b.targets = (node, slot) :: a.targets) : b.Aimed root := by
  intro p hp
  rw [hscopes]
  rw [htargets] at hp
  rcases List.mem_cons.mp hp with rfl | hp
  · exact ⟨v, hstores, hslot⟩
  · exact h p hp

end Analysis.Aimed

namespace Visit

variable {settings : Settings} {mode : AnalysisMode} {root : Expr}

/-- After an access the slots hold what they held, and the slot of the access its variable. -/
theorem aimed_accessed {s : Survey} (hs : s.IsSound mode) (h : s.analysis.Aimed root) (v : Variable)
    (how : Access) :
    let r := s.analysis.scopes.access s.current v.key how
    ({ s.analysis with scopes := r.2 } : Analysis).Aimed root ∧ r.2.Holds r.1 v.key :=
  ⟨h.of_holds rfl fun slot key =>
      (lasts_holds (fun _ => True) slot key).access v.key how hs.rooted hs.current fun _ _ => trivial,
    holds_access hs.current v.key how⟩

mutual

theorem aimed_perform : (m : Move) →
    (∀ c ∈ m.visits, ∀ s : Survey, s.IsSound mode → s.analysis.Aimed root →
      ((tree settings c.1 c.2).after s).analysis.Aimed root) →
    AllAim root [m] → ∀ s : Survey, s.IsSound mode → s.analysis.Aimed root →
      ((perform settings m).after s).analysis.Aimed root
  | .child e position, hvisits, _, s, hs, h => hvisits (e, position) (List.mem_singleton_self _) s hs h
  | .note t, _, _, s, _, h => by
    show ((noteType settings t).after s).analysis.Aimed root
    unfold noteType
    split <;> exact h
  | .jump _, _, _, _, _, h => h
  | .reference v isAssigned, _, _, _, hs, h => (aimed_accessed hs h v (.reference isAssigned)).1
  | .assignment node v isStatement isTyped, _, haims, s, hs, h => by
    obtain ⟨haimed, hslot⟩ := aimed_accessed hs h v (.assignment node isStatement)
    exact haimed.cons (haims.aims _ (List.mem_singleton_self _)) hslot rfl rfl
  | .output node v, _, haims, s, hs, h => by
    obtain ⟨haimed, hslot⟩ := aimed_accessed hs h v (.output (settings.choice .inlineOutputs))
    exact haimed.cons (haims.aims _ (List.mem_singleton_self _)) hslot rfl rfl
  | .scope owner declared moves, hvisits, haims, s, hs, h => by
    have hentered : (s.entered owner declared).analysis.Aimed root := by
      refine h.of_holds (by cases owner <;> rfl) fun slot key hslot => ?_
      have hlasts := lasts_holds (fun _ => True) slot key
      exact hlasts.declareAll (hs.rooted.push hs.current owner.kind)
        (by rw [length_push]; exact Nat.lt_succ_self _) declared owner.declaration
        (hlasts.push owner.kind hs.rooted hs.current hslot)
    show ((opened owner declared (performAll settings moves)).after s).analysis.Aimed root
    rw [after_opened]
    have hmoves : AllAim root moves :=
      ⟨fun step hstep => haims.aims step (by simpa [steps] using hstep)⟩
    exact aimed_performAll moves hvisits hmoves _ (hs.entered owner declared) hentered

theorem aimed_performAll : (ms : List Move) →
    (∀ c ∈ visitsAll ms, ∀ s : Survey, s.IsSound mode → s.analysis.Aimed root →
      ((tree settings c.1 c.2).after s).analysis.Aimed root) →
    AllAim root ms → ∀ s : Survey, s.IsSound mode → s.analysis.Aimed root →
      ((performAll settings ms).after s).analysis.Aimed root
  | [], _, _, _, _, h => h
  | m :: ms, hvisits, haims, s, hs, h => by
    have hfirst : AllAim root [m] :=
      ⟨fun step hstep => haims.aims step (List.mem_append_left _ (by simpa using hstep))⟩
    have hrest : AllAim root ms :=
      ⟨fun step hstep => haims.aims step (List.mem_append_right _ hstep)⟩
    have hkeeps : Keeps mode (fun _ => True) (perform settings m) :=
      keeps_perform lasts_true m (fun c _ => keeps_tree lasts_true c.1 c.2 fun _ _ => trivial)
        fun _ _ => trivial
    exact aimed_performAll ms (fun c hc => hvisits c (List.mem_append_right _ hc)) hrest _
      (hkeeps s hs trivial).2.1
      (aimed_perform m (fun c hc => hvisits c (List.mem_append_left _ hc)) hfirst s hs h)

end

theorem aimed_tree {e : Expr} (he : e ∈ root.nodes) (position : Position) (s : Survey)
    (hs : s.IsSound mode) (h : s.analysis.Aimed root) :
    ((tree settings e position).after s).analysis.Aimed root := by
  induction e using Node.induction generalizing position s with
  | h node form ih =>
    rw [after_tree]
    refine aimed_performAll _ (fun c hc s' hs' h' => ?_) (aims_ofForm settings _ he position) s hs h
    have hchild : c.1 ∈ form.children :=
      mem_children_of_visits settings s.analysis.mode (e := .mk node form) (p := position) hc
    exact ih c.1 hchild (Node.mem_nodes_trans (Node.mem_nodes_of_mem hchild c.1.mem_nodes_self) he) c.2 s' hs' h'

/-- **The slot that is recorded for a node holds the variable of the node.** -/
theorem holds_target {e : Expr} {position : Position} {node : Nat} {slot : Slot}
    (h : (run settings mode e position).target? node = some slot) :
    ∃ v, e.Stores node v ∧ (run settings mode e position).scopes.Holds slot v.key := by
  obtain ⟨namespaces, hrun⟩ := run_eq settings mode e position
  rw [hrun] at h ⊢
  have haimed : ((tree settings e position).after (.start mode)).analysis.Aimed e :=
    aimed_tree e.mem_nodes_self position _ (Survey.isSound_start mode) fun _ hp => nomatch hp
  exact haimed (node, slot) (mem_of_lookup h)

end Visit

end TreeScribe
