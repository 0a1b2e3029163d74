import TreeScribe.Proofs.Analysis.Keeps
import TreeScribe.Proofs.Scope.Relabel
import TreeScribe.Proofs.Tree.Keys

/-! Analyses under other labels.

As long as the labels under which results are kept stay different, the analysis of a tree under other
labels is the analysis of the tree, under other labels (`Visit.run_relabel`). -/
namespace TreeScribe

/-! ### Analyses and surveys -/

namespace Analysis

/-- The analysis under other labels. -/
def relabel (g : Nat → Nat) (a : Analysis) : Analysis :=
  { a with
    scopes := a.scopes.relabel g
    blockScopes := a.blockScopes.map (Prod.map g id)
    lambdaScopes := a.lambdaScopes.map (Prod.map g id)
    handlerScopes := a.handlerScopes.map (Prod.map g id)
    targets := a.targets.map (Prod.map g id)
    extracted := a.extracted.map fun b => ⟨b.block.relabel g, b.scope⟩ }

/-- All results are kept under these keys. -/
structure KeptUnder (among : Keyed → Nat → Prop) (a : Analysis) : Prop where
  block : ∀ p ∈ a.blockScopes, among .block p.1
  lambda : ∀ p ∈ a.lambdaScopes, among .lambda p.1
  handler : ∀ p ∈ a.handlerScopes, among .handler p.1
  target : ∀ p ∈ a.targets, among .target p.1
  carrier : a.scopes.Names (among .target)

end Analysis

namespace Survey

def relabel (g : Nat → Nat) (s : Survey) : Survey := { s with analysis := s.analysis.relabel g }

/-- The survey after an access. -/
def accessed (s : Survey) (v : Variable) (how : Access) : Survey :=
  { s with analysis := { s.analysis with
      scopes := (s.analysis.scopes.access s.current v.key how).2 } }

/-- The survey in a new scope. -/
def pushed (s : Survey) (kind : ScopeKind) : Survey :=
  { analysis := { s.analysis with scopes := (s.analysis.scopes.push s.current kind).2 }
    current := s.analysis.scopes.scopes.length }

variable (g : Nat → Nat) (s : Survey)

theorem accessed_relabel (v : Variable) (how : Access) :
    (s.relabel g).accessed v (how.relabel g) = (s.accessed v how).relabel g := by
  have haccess := s.analysis.scopes.access_relabel g s.current v.key how
  exact congrArg (fun r : Slot × ScopeTree =>
    { s with analysis := { s.analysis.relabel g with scopes := r.2 } : Survey }) haccess

theorem pushed_relabel (kind : ScopeKind) :
    (s.relabel g).pushed kind = (s.pushed kind).relabel g := by
  have hpush := s.analysis.scopes.push_relabel g s.current kind
  have hlength : (s.relabel g).analysis.scopes.scopes.length = s.analysis.scopes.scopes.length :=
    List.length_map ..
  unfold pushed
  rw [hlength]
  exact congrArg (fun r : Nat × ScopeTree =>
    { analysis := { s.analysis.relabel g with scopes := r.2 }
      current := s.analysis.scopes.scopes.length : Survey }) hpush

theorem left_relabel (inner : Survey) :
    (s.relabel g).left (inner.relabel g) = (s.left inner).relabel g := by
  have hlength : (s.relabel g).analysis.scopes.scopes.length = s.analysis.scopes.scopes.length :=
    List.length_map ..
  have hparent := inner.analysis.scopes.parent?_relabel g s.analysis.scopes.scopes.length
  unfold left
  rw [hlength]
  exact congrArg (fun parent : Option Nat =>
    { inner.relabel g with current := parent.getD ScopeTree.rootScope }) hparent

end Survey

/-! ### Visits -/

namespace Visit

/-- The other visit does the same under other labels, and all results are kept under the keys. -/
def Mirrored (g : Nat → Nat) (among : Keyed → Nat → Prop) (x x' : Visit Unit) : Prop :=
  ∀ s : Survey, s.analysis.KeptUnder among →
    x'.after (s.relabel g) = (x.after s).relabel g ∧ (x.after s).analysis.KeptUnder among

namespace Mirrored

variable {g : Nat → Nat} {among : Keyed → Nat → Prop} {x x' y y' : Visit Unit}

theorem pure : Mirrored g among (Pure.pure ()) (Pure.pure ()) := fun _ h => ⟨rfl, h⟩

theorem seq (hx : Mirrored g among x x') (hy : Mirrored g among y y') :
    Mirrored g among (do x; y) (do x'; y') := by
  intro s hs
  obtain ⟨heq, hkept⟩ := hx s hs
  obtain ⟨heq', hkept'⟩ := hy _ hkept
  refine ⟨?_, hkept'⟩
  show y'.after (x'.after (s.relabel g)) = _
  rw [heq, heq']
  rfl

theorem ite {c : Prop} [Decidable c] (hx : c → Mirrored g among x x') (hy : ¬c → Mirrored g among y y') :
    Mirrored g among (if c then x else y) (if c then x' else y') := by
  split
  next h => exact hx h
  next h => exact hy h

/-- Each visit of the list does the same. -/
theorem forM {α : Type} {f f' : α → Visit Unit} {as : List α}
    (h : ∀ a ∈ as, Mirrored g among (f a) (f' a)) : Mirrored g among (as.forM f) (as.forM f') := by
  induction as with
  | nil => exact pure
  | cons a as ih =>
    exact (h a (List.mem_cons_self ..)).seq (ih fun a' ha => h a' (List.mem_cons_of_mem _ ha))

theorem forM_map {α β γ : Type} {r : α → β} {r' : α → γ} {f : β → Visit Unit} {f' : γ → Visit Unit}
    {as : List α} (h : ∀ a ∈ as, Mirrored g among (f (r a)) (f' (r' a))) :
    Mirrored g among ((as.map r).forM f) ((as.map r').forM f') := by
  rw [Visit.forM_map, Visit.forM_map]
  exact forM h

theorem forM_option {α β γ : Type} {r : α → β} {r' : α → γ} {f : β → Visit Unit} {f' : γ → Visit Unit}
    {a : Option α} (h : ∀ a' ∈ a.toList, Mirrored g among (f (r a')) (f' (r' a'))) :
    Mirrored g among ((a.map r).forM f) ((a.map r').forM f') := by
  cases a with
  | none => exact pure
  | some a => exact h a (List.mem_singleton_self _)

/-- A visit that looks at the survey first. -/
theorem get {k k' : Survey → Visit Unit} (h : ∀ s : Survey, s.analysis.KeptUnder among →
      (k' (s.relabel g)).after (s.relabel g) = ((k s).after s).relabel g ∧
        ((k s).after s).analysis.KeptUnder among) :
    Mirrored g among (MonadState.get >>= k) (MonadState.get >>= k') :=
  h

theorem update {f f' : Analysis → Analysis} (heq : ∀ a : Analysis, f' (a.relabel g) = (f a).relabel g)
    (hkept : ∀ a : Analysis, a.KeptUnder among → (f a).KeptUnder among) :
    Mirrored g among (Visit.update f) (Visit.update f') :=
  fun s hs => ⟨congrArg (fun a => { s with analysis := a }) (heq s.analysis), hkept s.analysis hs⟩

/-- A visit that records an access and goes on with the slot. -/
theorem access {k k' : Slot → Visit Unit} (v : Variable) (how : Access)
    (hhow : ∀ node isStatement, how = .assignment node isStatement → among .target node)
    (h : ∀ slot, Mirrored g among (k slot) (k' slot)) :
    Mirrored g among (Visit.access v how >>= k) (Visit.access v (how.relabel g) >>= k') := by
  intro s hs
  have hslot : ((s.relabel g).analysis.scopes.access s.current v.key (how.relabel g)).1 =
      (s.analysis.scopes.access s.current v.key how).1 := by
    show ((s.analysis.scopes.relabel g).access s.current v.key (how.relabel g)).1 = _
    rw [ScopeTree.access_relabel]
  have hkept : (s.accessed v how).analysis.KeptUnder among :=
    { hs with carrier := hs.carrier.access s.current v.key hhow }
  obtain ⟨heq, hkept'⟩ := h (s.analysis.scopes.access s.current v.key how).1 _ hkept
  refine ⟨?_, hkept'⟩
  show (k' ((s.relabel g).analysis.scopes.access s.current v.key (how.relabel g)).1).after
    ((s.relabel g).accessed v (how.relabel g)) = _
  rw [hslot, Survey.accessed_relabel, heq]
  rfl

theorem reference (v : Variable) (isAssigned : Bool) :
    Mirrored g among (Visit.reference v isAssigned) (Visit.reference v isAssigned) :=
  access v (.reference isAssigned) (fun _ _ h => nomatch h) fun _ => pure

theorem declare (scope : Nat) (v : Variable) (d : Declaration) :
    Mirrored g among (Visit.declare scope v d) (Visit.declare scope v d) := by
  refine update (fun a => ?_) fun a ha => { ha with carrier := ha.carrier.declare scope v.key d }
  show ({ a.relabel g with scopes := ((a.scopes.relabel g).declare scope v.key d).2 } : Analysis) = _
  rw [ScopeTree.declare_relabel]
  rfl

/-- A visit in a scope of its own. -/
theorem within (kind : ScopeKind) {x x' : Nat → Visit Unit} (h : ∀ scope, Mirrored g among (x scope) (x' scope)) :
    Mirrored g among (Visit.within kind x) (Visit.within kind x') := by
  intro s hs
  have hlength : (s.relabel g).analysis.scopes.scopes.length = s.analysis.scopes.scopes.length :=
    List.length_map ..
  have hkept : (s.pushed kind).analysis.KeptUnder among :=
    { hs with carrier := hs.carrier.push s.current kind }
  obtain ⟨heq, hkept'⟩ := h s.analysis.scopes.scopes.length _ hkept
  refine ⟨?_, hkept'⟩
  show (s.relabel g).left ((x' (s.relabel g).analysis.scopes.scopes.length).after
    ((s.relabel g).pushed kind)) = _
  rw [hlength, Survey.pushed_relabel, heq, Survey.left_relabel]
  rfl

/-! ### Constructs -/

variable {settings : Settings}

theorem noteType (t : TypeRef) :
    Mirrored g among (Visit.noteType settings t) (Visit.noteType settings t) :=
  ite (fun _ => pure) fun _ => update (fun _ => rfl) fun _ ha => { ha with }

theorem noteTypeIf {condition : Bool} {t : TypeRef} :
    Mirrored g among (Visit.noteTypeIf settings condition t) (Visit.noteTypeIf settings condition t) :=
  ite (fun _ => noteType t) fun _ => pure

theorem noteMethod (method : Option MethodInfo) :
    Mirrored g among (Visit.noteMethod settings method) (Visit.noteMethod settings method) := by
  cases method with
  | none => exact pure
  | some m => exact noteTypeIf

theorem constant (c : Constant) :
    Mirrored g among (Visit.constant settings c) (Visit.constant settings c) := by
  unfold Visit.constant
  split
  · exact noteType _
  · exact noteType _
  · refine ite (fun _ => forM fun field _ => ?_) fun _ => pure
    split
    · exact noteType _
    · exact pure
  · exact pure

end Mirrored

section Constructs

variable {g : Nat → Nat} {among : Keyed → Nat → Prop} {settings : Settings}

/-- The tree under other labels, with what visiting it does. -/
abbrev twin (settings : Settings) (g : Nat → Nat) (e : Expr) : Child := child settings (e.relabel g)

/-- The visits of the tree and of the tree under other labels do the same. -/
def IsMirrored (settings : Settings) (g : Nat → Nat) (among : Keyed → Nat → Prop) (e : Expr) : Prop :=
  ∀ position, Mirrored g among (tree settings e position) (tree settings (e.relabel g) position)

theorem mirrored_values (es : List Expr) (h : ∀ e ∈ es, IsMirrored settings g among e) :
    Mirrored g among (values (es.map (child settings))) (values (es.map (twin settings g))) :=
  .forM_map fun e he => h e he .value

theorem mirrored_sequence {es : List Expr} (h : ∀ e ∈ es, IsMirrored settings g among e)
    (last : Position) :
    Mirrored g among (sequence last (es.map (child settings))) (sequence last (es.map (twin settings g))) := by
  induction es with
  | nil => exact .pure
  | cons e es ih =>
    have hfirst := h e (List.mem_cons_self ..)
    cases es with
    | nil => exact hfirst last
    | cons e' es => exact (hfirst .statement).seq (ih fun x hx => h x (List.mem_cons_of_mem _ hx))

theorem mirrored_block {node : Nat} (hnode : among .block node) {es : List Expr}
    (h : ∀ e ∈ es, IsMirrored settings g among e) (locals : List Variable) (ty : TypeRef) (role : BlockRole) :
    Mirrored g among (block node locals (es.map (child settings)) ty role)
      (block (g node) locals (es.map (twin settings g)) ty role) := by
  refine .within .block fun scope => .seq (.update (fun _ => rfl) fun a ha => ?_)
    (.seq (.forM fun v _ => .declare scope v .inList) (mirrored_sequence h _))
  exact { ha with block := List.forall_mem_cons.mpr ⟨hnode, ha.block⟩ }

theorem mirrored_extract (self : Expr) (hnode : among .block self.label) {es : List Expr}
    (h : ∀ e ∈ es, IsMirrored settings g among e) (locals : List Variable) (ty : TypeRef) :
    Mirrored g among (extract self locals (es.map (child settings)) ty)
      (extract (self.relabel g) locals (es.map (twin settings g)) ty) := by
  refine .within .extracted fun scope => .seq (.update (fun a => ?_) fun a ha => { ha with }) ?_
  · show ({ a.relabel g with extracted := _ } : Analysis) = _
    simp only [Analysis.relabel, List.map_append, List.map_cons, List.map_nil]
  · rw [Node.label_relabel]
    exact mirrored_block hnode h locals ty _

/-- The same assignment carries the declaration. -/
theorem joined_relabel (hinjective : ∀ a b, among .target a → among .target b → g a = g b → a = b)
    {a : Analysis} (ha : a.KeptUnder among) {node : Nat} (hnode : among .target node) (slot : Slot) :
    ((a.relabel g).scopes.info? slot).any (·.joined? == some (g node)) =
      (a.scopes.info? slot).any (·.joined? == some node) := by
  show ((a.scopes.relabel g).info? slot).any _ = _
  rw [ScopeTree.info?_relabel]
  cases hv : a.scopes.info? slot with
  | none => rfl
  | some v =>
    obtain ⟨s, hs, hv⟩ := Option.bind_eq_some_iff.mp hv
    have hcarrier := ha.carrier s (List.mem_of_getElem? hs) v (List.mem_of_getElem? hv)
    have hjoined : (v.relabel g).joined? = v.joined?.map g := by
      unfold VariableInfo.joined? VariableInfo.relabel
      dsimp only
      split <;> rfl
    simp only [Option.map_some, Option.any_some, hjoined]
    cases hcarried : v.joined? with
    | none => rfl
    | some n =>
      have hn : among .target n := by
        unfold VariableInfo.joined? at hcarried
        split at hcarried
        · exact hcarrier n hcarried
        · cases hcarried
      by_cases heq : n = node
      · rw [heq]
        simp
      · have hne : g n ≠ g node := fun h => heq (hinjective n node hn hnode h)
        simp [heq, hne]

theorem mirrored_assignment
    (hinjective : ∀ a b, among .target a → among .target b → g a = g b → a = b) {node : Nat}
    {op : BinaryOp} {left right : Expr}
    (hnode : op = .assign → left.asParameter?.isSome → among .target node)
    (hleft : IsMirrored settings g among left) (hright : IsMirrored settings g among right)
    (isStatement : Bool) :
    Mirrored g among (assignment settings node op (child settings left) (child settings right) isStatement)
      (assignment settings (g node) op (twin settings g left) (twin settings g right) isStatement) := by
  refine .seq (hright .value) (.seq .noteTypeIf ?_)
  dsimp only
  rw [Node.asParameter?_relabel]
  cases hv : left.asParameter? with
  | none => exact hleft .value
  | some v =>
    dsimp only
    refine .ite (fun hop => ?_) fun _ => .reference v true
    have hnode' := hnode (eq_of_beq hop) (by rw [hv]; rfl)
    refine .access v (.assignment node isStatement) ?_ fun slot => .get fun s hs => ?_
    · rintro _ _ ⟨rfl, rfl⟩
      exact hnode'
    · have hwrites : settings.writesJoinType v.ty (right.relabel g) = settings.writesJoinType v.ty right := by
        obtain ⟨l, f⟩ := right
        rw [Node.relabel_mk]
        cases f <;> rfl
      refine ⟨?_, { hs with target := List.forall_mem_cons.mpr ⟨hnode', hs.target⟩ }⟩
      show after (update fun a => { a with
        targets := (g node, slot) :: a.targets
        typedJoins := if ((s.analysis.relabel g).scopes.info? slot).any (·.joined? == some (g node)) &&
            settings.writesJoinType v.ty (right.relabel g) then slot :: a.typedJoins
          else a.typedJoins }) (s.relabel g) = _
      rw [joined_relabel hinjective hs hnode', hwrites]
      rfl

theorem mirrored_unary {operand : Option Expr} (h : ∀ e ∈ operand.toList, IsMirrored settings g among e)
    (op : UnaryOp) (ty : TypeRef) (method : Option MethodInfo) :
    Mirrored g among (unary settings op (operand.map (child settings)) ty method)
      (unary settings op (operand.map (twin settings g)) ty method) := by
  cases operand with
  | none => exact .seq .noteTypeIf (.seq .noteTypeIf (.seq (.noteMethod method) .pure))
  | some e =>
    unfold unary
    simp only [Option.map_some, Option.any_some, Node.ty_relabel, Node.asParameter?_relabel]
    refine .seq .noteTypeIf (.seq .noteTypeIf (.seq (.noteMethod method) ?_))
    split
    · exact .reference _ true
    · exact h e (List.mem_singleton_self _) .value

theorem mirrored_body {e : Expr} (h : IsMirrored settings g among e) (returns : Bool) :
    Mirrored g among (body (child settings e) returns) (body (twin settings g e) returns) :=
  h _

theorem mirrored_branches {test ifTrue ifFalse : Expr} (htest : IsMirrored settings g among test)
    (htrue : IsMirrored settings g among ifTrue) (hfalse : IsMirrored settings g among ifFalse)
    (returns : Bool) :
    Mirrored g among (branches (child settings test) (child settings ifTrue) (child settings ifFalse) returns)
      (branches (twin settings g test) (twin settings g ifTrue) (twin settings g ifFalse) returns) := by
  refine .seq (htest .value) (.seq (.within .branch fun _ => mirrored_body htrue returns) ?_)
  dsimp only
  rw [Node.isEmpty_relabel]
  exact .ite (fun _ => .pure) fun _ => .within .branch fun _ => mirrored_body hfalse returns

theorem mirrored_switch {subject : Expr} (hsubject : IsMirrored settings g among subject)
    {cases : List (SwitchCase Expr)}
    (hcases : ∀ c ∈ cases, ∀ e ∈ c.tests ++ [c.body], IsMirrored settings g among e)
    {defaultBody : Option Expr} (hdefault : ∀ e ∈ defaultBody.toList, IsMirrored settings g among e)
    (returns : Bool) :
    Mirrored g among
      (switch (child settings subject) (cases.map (·.map (child settings)))
        (defaultBody.map (child settings)) returns)
      (switch (twin settings g subject) (cases.map (·.map (twin settings g)))
        (defaultBody.map (twin settings g)) returns) := by
  refine .seq (hsubject .value) (.seq (.forM_map fun c hc => ?_) (.forM_option fun e he => ?_))
  · refine .seq (mirrored_values _ fun e he => hcases c hc e (List.mem_append_left _ he)) ?_
    exact .within .switchCase fun _ =>
      mirrored_body (hcases c hc c.body (List.mem_append_right _ (List.mem_singleton_self _))) returns
  · exact .within .switchCase fun _ => mirrored_body (hdefault e he) returns

theorem mirrored_handler {h : Handler Expr} (hnode : among .handler h.body.label)
    (hchildren : ∀ e ∈ h.filter.toList ++ [h.body], IsMirrored settings g among e) (returns : Bool) :
    Mirrored g among (handler settings (h.map (child settings)) returns)
      (handler settings (h.map (twin settings g)) returns) := by
  refine .within .catchBody fun scope => .seq (.update (fun a => ?_) fun a ha => ?_) ?_
  · simp only [Handler.map, Node.label_relabel]
    rfl
  · exact { ha with handler := List.forall_mem_cons.mpr ⟨hnode, ha.handler⟩ }
  · refine .seq .noteTypeIf (.seq ?_ (.seq (.forM_option fun e he => ?_) ?_))
    · show Mirrored g among (h.caught.forM _) (h.caught.forM _)
      cases h.caught with
      | none => exact .pure
      | some v => exact .declare scope v .undeclared
    · exact hchildren e (List.mem_append_left _ he) .value
    · exact mirrored_body (hchildren h.body (List.mem_append_right _ (List.mem_singleton_self _))) returns

theorem mirrored_attempt {tried : Expr} (htried : IsMirrored settings g among tried)
    {handlers : List (Handler Expr)} (hnodes : ∀ h ∈ handlers, among .handler h.body.label)
    (hhandlers : ∀ h ∈ handlers, ∀ e ∈ h.filter.toList ++ [h.body], IsMirrored settings g among e)
    {cleanup fault : Option Expr} (hcleanup : ∀ e ∈ cleanup.toList, IsMirrored settings g among e)
    (hfault : ∀ e ∈ fault.toList, IsMirrored settings g among e) (returns : Bool) :
    Mirrored g among
      (attempt settings (child settings tried) (handlers.map (·.map (child settings)))
        (cleanup.map (child settings)) (fault.map (child settings)) returns)
      (attempt settings (twin settings g tried) (handlers.map (·.map (twin settings g)))
        (cleanup.map (twin settings g)) (fault.map (twin settings g)) returns) := by
  refine .seq (.within .tryBody fun _ => mirrored_body htried returns) (.seq (.forM_map fun h hh => ?_)
    (.seq (.forM_option fun e he => ?_) (.forM_option fun e he => ?_)))
  · exact mirrored_handler (hnodes h hh) (hhandlers h hh) returns
  · exact .within .cleanupBody fun _ => hcleanup e he .statement
  · exact .within .catchBody fun _ => hfault e he .statement

theorem mirrored_lambda {node : Nat} (hnode : among .lambda node) {lambdaBody : Expr}
    (hbody : IsMirrored settings g among lambdaBody) (parameters : List Variable) (returnType : TypeRef) :
    Mirrored g among (lambda settings node parameters (child settings lambdaBody) returnType)
      (lambda settings (g node) parameters (twin settings g lambdaBody) returnType) := by
  refine .within .lambda fun scope => .seq (.update (fun _ => rfl) fun a ha => ?_) (.seq ?_ ?_)
  · exact { ha with lambda := List.forall_mem_cons.mpr ⟨hnode, ha.lambda⟩ }
  · exact .forM fun v _ => .seq (.declare scope v .undeclared) .noteTypeIf
  · dsimp only
    rw [Node.rendersAsStatements_relabel]
    exact .ite (fun _ => mirrored_body hbody _) fun _ => hbody .value

theorem mirrored_argument {e : Expr} (h : IsMirrored settings g among e) {mode : PassingMode}
    (hnode : mode = .out → e.asParameter?.isSome → among .target e.label) :
    Mirrored g among (argument settings (child settings e) mode) (argument settings (twin settings g e) mode) := by
  unfold argument
  dsimp only
  rw [Node.asParameter?_relabel, Node.label_relabel]
  cases hv : e.asParameter? with
  | none => cases mode <;> exact h .value
  | some v =>
    cases mode with
    | value => exact h .value
    | ref => exact .reference v true
    | out =>
      refine .access v (.output (settings.choice .inlineOutputs)) (fun _ _ h => nomatch h) fun slot => ?_
      refine .update (fun _ => rfl) fun a ha => ?_
      exact { ha with target := List.forall_mem_cons.mpr ⟨hnode rfl (by rw [hv]; rfl), ha.target⟩ }

theorem mirrored_arguments {es : List Expr} (h : ∀ e ∈ es, IsMirrored settings g among e)
    {ps : List ParameterInfo} (hnodes : ∀ n ∈ Node.outputs es ps, among .target n) :
    Mirrored g among (arguments settings (es.map (child settings)) ps)
      (arguments settings (es.map (twin settings g)) ps) := by
  induction es generalizing ps with
  | nil => cases ps <;> exact .pure
  | cons e es ih =>
    have hfirst := h e (List.mem_cons_self ..)
    have hrest := fun e he => h e (List.mem_cons_of_mem _ he)
    cases ps with
    | nil =>
      refine .seq (mirrored_argument hfirst fun hmode => nomatch hmode) (ih hrest fun n hn => ?_)
      rw [Node.outputs, List.zip_nil_right] at hn
      cases hn
    | cons p ps =>
      rw [Node.outputs_cons] at hnodes
      refine .seq (mirrored_argument hfirst fun hmode hv => hnodes _ (List.mem_append_left _ ?_))
        (ih hrest fun n hn => hnodes n (List.mem_append_right _ hn))
      simp [hmode, hv]

theorem mirrored_call {receiver : Option Expr} {args : List Expr}
    (h : ∀ e ∈ receiver.toList ++ args, IsMirrored settings g among e) {m : MethodInfo}
    (hnodes : ∀ n ∈ Node.outputs args m.parameters, among .target n) :
    Mirrored g among (call settings (receiver.map (child settings)) m (args.map (child settings)))
      (call settings (receiver.map (twin settings g)) m (args.map (twin settings g))) := by
  have hargs := fun e he => h e (List.mem_append_right _ he)
  have hrest : Mirrored g among
      (do (receiver.map (child settings)).forM (·.2 .value)
          arguments settings (args.map (child settings)) m.parameters)
      (do (receiver.map (twin settings g)).forM (·.2 .value)
          arguments settings (args.map (twin settings g)) m.parameters) :=
    .seq (.forM_option fun e he => h e (List.mem_append_left _ he) .value) (mirrored_arguments hargs hnodes)
  refine .ite (fun _ => mirrored_values args hargs) fun _ => .seq .noteTypeIf ?_
  exact .ite (fun _ => .seq (.forM fun t _ => .noteType t) hrest) fun _ => hrest

end Constructs

/-! ### Whole trees -/

section Form

variable {g : Nat → Nat} {among : Keyed → Nat → Prop} {settings : Settings}
  (hinjective : ∀ a b, among .target a → among .target b → g a = g b → a = b) {node : Nat}
  {form : Form Expr} (hkeys : ∀ kind, ∀ k ∈ form.keys node kind, among kind k)
  (h : ∀ e ∈ form.children, IsMirrored settings g among e)

include hkeys h

theorem mirrored_block_as (role : BlockRole) {locals : List Variable} {es : List Expr} {ty : TypeRef}
    (hform : form = .block locals es ty) :
    Mirrored g among (block node locals (es.map (child settings)) ty role)
      (block (g node) locals (es.map (twin settings g)) ty role) := by
  subst hform
  exact mirrored_block (hkeys .block node (List.mem_singleton_self _)) h locals ty role

theorem mirrored_attempt_as (returns : Bool) {tried : Expr} {handlers : List (Handler Expr)}
    {cleanup fault : Option Expr} {ty : TypeRef} (hform : form = .try tried handlers cleanup fault ty) :
    Mirrored g among
      (attempt settings (child settings tried) (handlers.map (·.map (child settings)))
        (cleanup.map (child settings)) (fault.map (child settings)) returns)
      (attempt settings (twin settings g tried) (handlers.map (·.map (twin settings g)))
        (cleanup.map (twin settings g)) (fault.map (twin settings g)) returns) := by
  subst hform
  simp only [Form.children, List.cons_append, List.mem_cons, List.mem_append, List.mem_flatMap,
    or_imp, forall_and, forall_eq] at h
  obtain ⟨htried, ⟨hhandlers, hcleanup⟩, hfault⟩ := h
  refine mirrored_attempt htried (fun x hx => hkeys .handler _ (List.mem_map_of_mem hx)) (fun x hx e he => ?_)
    hcleanup hfault returns
  exact hhandlers e ⟨x, hx, by simpa using he⟩

omit hkeys in
theorem mirrored_switch_as (returns : Bool) {subject : Expr} {cases : List (SwitchCase Expr)}
    {defaultBody : Option Expr} {ty : TypeRef} (hform : form = .switch subject cases defaultBody ty) :
    Mirrored g among
      (switch (child settings subject) (cases.map (·.map (child settings)))
        (defaultBody.map (child settings)) returns)
      (switch (twin settings g subject) (cases.map (·.map (twin settings g)))
        (defaultBody.map (twin settings g)) returns) := by
  subst hform
  simp only [Form.children, List.cons_append, List.mem_cons, List.mem_append, List.mem_flatMap,
    or_imp, forall_and, forall_eq] at h
  obtain ⟨hsubject, hcases, hdefault⟩ := h
  refine mirrored_switch hsubject (fun x hx e he => ?_) hdefault returns
  exact hcases e ⟨x, hx, by simpa using he⟩

include hinjective

theorem mirrored_assignment_as (isStatement : Bool) {op : BinaryOp} {left right : Expr} {ty : TypeRef}
    {m : Option MethodInfo} (hform : form = .binary op left right ty m) :
    Mirrored g among (assignment settings node op (child settings left) (child settings right) isStatement)
      (assignment settings (g node) op (twin settings g left) (twin settings g right) isStatement) := by
  subst hform
  refine mirrored_assignment hinjective (fun hop hv => hkeys .target node ?_) (h left (by simp [Form.children]))
    (h right (by simp [Form.children])) isStatement
  subst hop
  simp [Form.keys, Form.isStore, hv]

theorem mirrored_value :
    Mirrored g among (value settings node (form.map (child settings)))
      (value settings (g node) (form.map (twin settings g))) := by
  cases form with
  | constant c => exact .constant c
  | parameter v => exact .reference v false
  | binary op left right ty m =>
    refine .ite (fun _ => mirrored_assignment_as hinjective hkeys h false rfl) fun _ => ?_
    exact .seq .noteTypeIf (.seq (.noteMethod m) (mirrored_values [left, right] h))
  | unary op operand ty m => exact mirrored_unary h op ty m
  | conditional test ifTrue ifFalse ty => exact mirrored_values [test, ifTrue, ifFalse] h
  | block locals es ty =>
    have hself : ((Form.block locals es ty).map (child settings)).map (·.1) = .block locals es ty := by
      rw [Form.map_map]
      exact Form.map_id _
    have htwin : ((Form.block locals es ty).map (twin settings g)).map (·.1) =
        (Form.block locals es ty).map (Node.relabel g) :=
      Form.map_map ..
    have htransparent {β : Type} (r : Expr → β) :
        Form.isTransparent locals (es.map r) = Form.isTransparent locals es :=
      Form.isTransparent_map r locals es
    have hextract : Mirrored g among
        (extract (.mk node (((Form.block locals es ty).map (child settings)).map (·.1))) locals
          (es.map (child settings)) ty)
        (extract (.mk (g node) (((Form.block locals es ty).map (twin settings g)).map (·.1))) locals
          (es.map (twin settings g)) ty) := by
      rw [hself, htwin, ← Node.relabel_mk]
      exact mirrored_extract (.mk node (.block locals es ty))
        (hkeys .block node (List.mem_singleton_self _)) h locals ty
    refine .get fun s hs => ?_
    have hboth : Mirrored g among
        (if s.analysis.mode == .source && !Form.isTransparent locals (es.map (child settings)) then
          extract (.mk node (((Form.block locals es ty).map (child settings)).map (·.1))) locals
            (es.map (child settings)) ty
          else block node locals (es.map (child settings)) ty .value)
        (if s.analysis.mode == .source && !Form.isTransparent locals (es.map (twin settings g)) then
          extract (.mk (g node) (((Form.block locals es ty).map (twin settings g)).map (·.1))) locals
            (es.map (twin settings g)) ty
          else block (g node) locals (es.map (twin settings g)) ty .value) := by
      rw [htransparent, htransparent]
      exact .ite (fun _ => hextract) fun _ => mirrored_block_as hkeys h .value rfl
    exact hboth s hs
  | lambda name parameters lambdaBody returnType ty =>
    exact mirrored_lambda (hkeys .lambda node (List.mem_singleton_self _))
      (h lambdaBody (List.mem_singleton_self _)) parameters returnType
  | call receiver m args => exact mirrored_call h (hkeys .target)
  | invoke target args ty => exact mirrored_values (target :: args) h
  | member receiver info =>
    refine .seq .noteTypeIf (.forM_option fun e he => ?_)
    dsimp only
    rw [Node.isClosure_relabel]
    exact .ite (fun _ => .pure) fun _ => h e he .value
  | new creation => exact .seq .noteTypeIf (mirrored_arguments h (hkeys .target))
  | newArray elementType expressions bounds =>
    have htypes : (expressions.map (twin settings g)).map (·.1.ty) =
        (expressions.map (child settings)).map (·.1.ty) := by
      simp [Function.comp_def]
    refine .seq ?_ (mirrored_values expressions h)
    rw [htypes]
    exact .noteTypeIf
  | memberInit creation bindings =>
    refine .seq (.noteType _) (.seq (mirrored_values _ fun e he => h e (List.mem_append_left _ he)) ?_)
    rw [Binding.childrenAll_map, Binding.childrenAll_map]
    exact mirrored_values _ fun e he => h e (List.mem_append_right _ he)
  | listInit creation items =>
    have hitems (r : Expr → Child) : (items.map (·.map r)).flatMap (·.arguments) =
        (items.flatMap (·.arguments)).map r := by
      rw [List.flatMap_map, List.map_flatMap]
      rfl
    refine .seq (.noteType _) (.seq (mirrored_values _ fun e he => h e (List.mem_append_left _ he)) ?_)
    rw [hitems, hitems]
    exact mirrored_values _ fun e he => h e (List.mem_append_right _ he)
  | loop loopBody breakTarget continueTarget =>
    exact .within .loopBody fun _ => h loopBody (List.mem_singleton_self _) .statement
  | jump kind target result ty =>
    have hresult : Mirrored g among ((result.map (child settings)).forM (·.2 .value))
        ((result.map (twin settings g)).forM (·.2 .value)) :=
      .forM_option fun e he => h e he .value
    exact .ite (fun _ => .seq (.update (fun _ => rfl) fun a ha => { ha with }) hresult) fun _ => hresult
  | label target defaultValue => exact .forM_option fun e he => h e he .value
  | switch subject cases defaultBody ty => exact mirrored_switch_as h false rfl
  | «try» tried handlers cleanup fault ty => exact mirrored_attempt_as hkeys h false rfl
  | default ty => exact .noteTypeIf
  | index object indexer args ty => exact mirrored_values (object :: args) h
  | typeTest expression operand exact =>
    exact .seq (.noteType operand) (h expression (List.mem_singleton_self _) .value)
  | comment s => exact .pure
  | extension name ty display operands => exact mirrored_values operands h

theorem mirrored_statement :
    Mirrored g among (statement settings node (form.map (child settings)))
      (statement settings (g node) (form.map (twin settings g))) := by
  have hvalue := mirrored_value hinjective hkeys h
  cases form with
  | block locals es ty => exact mirrored_block_as hkeys h .discard rfl
  | binary op left right ty m =>
    exact .ite (fun _ => mirrored_assignment_as hinjective hkeys h true rfl) fun _ => hvalue
  | conditional test ifTrue ifFalse ty =>
    exact mirrored_branches (h test (by simp [Form.children])) (h ifTrue (by simp [Form.children]))
      (h ifFalse (by simp [Form.children])) false
  | _ => exact hvalue

theorem mirrored_returning :
    Mirrored g among (returning settings node (form.map (child settings)))
      (returning settings (g node) (form.map (twin settings g))) := by
  have hvalue := mirrored_value hinjective hkeys h
  cases form with
  | block locals es ty => exact mirrored_block_as hkeys h .return rfl
  | conditional test ifTrue ifFalse ty =>
    have hbranches := mirrored_branches (h test (by simp [Form.children])) (h ifTrue (by simp [Form.children]))
      (h ifFalse (by simp [Form.children])) (!ty.isVoid)
    unfold returning
    dsimp only [Form.map] at hvalue ⊢
    rw [Node.isTernary_relabel]
    exact .ite (fun _ => hvalue) fun _ => hbranches
  | switch subject cases defaultBody ty => exact mirrored_switch_as h (!ty.isVoid) rfl
  | «try» tried handlers cleanup fault ty => exact mirrored_attempt_as hkeys h (!ty.isVoid) rfl
  | _ => exact hvalue

end Form

/-- **The visit of a tree under other labels does the same**, as long as they tell targets apart. -/
theorem mirrored_tree {g : Nat → Nat} {among : Keyed → Nat → Prop} {settings : Settings}
    (hinjective : ∀ a b, among .target a → among .target b → g a = g b → a = b) {e : Expr}
    (hkeys : ∀ kind, ∀ k ∈ e.keys kind, among kind k) : IsMirrored settings g among e := by
  induction e using Node.induction with
  | h node form ih =>
    have hchildren : ∀ c ∈ form.children, IsMirrored settings g among c := fun c hc =>
      ih c hc fun kind k hk => hkeys kind k (Node.keys_subset_of_mem hc kind hk)
    have hown : ∀ kind, ∀ k ∈ form.keys node kind, among kind k := fun kind k hk => by
      refine hkeys kind k ?_
      rw [Node.keys_mk]
      exact List.mem_append_left _ hk
    intro position
    rw [Node.relabel_mk, tree, tree, Node.para_mk, Node.para_mk, Form.map_map]
    cases position with
    | value => exact mirrored_value hinjective hown hchildren
    | statement => exact mirrored_statement hinjective hown hchildren
    | returning => exact mirrored_returning hinjective hown hchildren

/-- **The analysis of a tree under other labels** is its analysis, under other labels. -/
theorem run_relabel {g : Nat → Nat} {e : Expr} (settings : Settings) (mode : AnalysisMode)
    (hinjective : ∀ a ∈ e.keys .target, ∀ b ∈ e.keys .target, g a = g b → a = b) (position : Position) :
    run settings mode (e.relabel g) position = (run settings mode e position).relabel g ∧
      (run settings mode e position).KeptUnder fun kind k => k ∈ e.keys kind := by
  have htree : Mirrored g (fun kind k => k ∈ e.keys kind) (tree settings e position)
      (tree settings (e.relabel g) position) :=
    mirrored_tree (fun a b ha hb => hinjective a ha b hb) (fun _ _ hk => hk) position
  have hdeclared (a : Analysis) : declaredTypes settings (a.relabel g) = declaredTypes settings a := by
    unfold declaredTypes
    show ((a.scopes.relabel g).locals).filterMap _ = _
    rw [ScopeTree.locals_relabel, List.filterMap_map]
    rfl
  have hwhole : Mirrored g (fun kind k => k ∈ e.keys kind)
      (do tree settings e position
          let a := (← get).analysis
          (declaredTypes settings a).forM (noteType settings))
      (do tree settings (e.relabel g) position
          let a := (← get).analysis
          (declaredTypes settings a).forM (noteType settings)) := by
    refine .seq htree (.get fun s hs => ?_)
    have hnotes : Mirrored g (fun kind k => k ∈ e.keys kind)
        ((declaredTypes settings s.analysis).forM (noteType settings))
        ((declaredTypes settings (s.analysis.relabel g)).forM (noteType settings)) := by
      rw [hdeclared]
      exact .forM fun t _ => .noteType t
    exact hnotes s hs
  have hstart : (Survey.start mode).analysis.KeptUnder fun kind k => k ∈ e.keys kind :=
    ⟨nofun, nofun, nofun, nofun, by simp [Survey.start, ScopeTree.Names]⟩
  obtain ⟨heq, hkept⟩ := hwhole (.start mode) hstart
  exact ⟨congrArg Survey.analysis heq, hkept⟩

end Visit
end TreeScribe
