import TreeScribe.Proofs.Analysis.Records
import TreeScribe.Proofs.Scope.Relabel
import TreeScribe.Proofs.Tree.Texts

/-! The names that an analysis holds.

Namespaces to import and variables come to an analysis from the nodes of the tree that is visited. So where
there are no brackets in the texts of a tree, there are none in the names of its analysis
(`Visit.isPlain_run`). -/
namespace TreeScribe

/-! ### Variables of scopes -/

namespace ScopeTree

/-- The property holds of all variables that scopes declare and of all that escape from them. -/
def HasKeys (P : VariableKey → Prop) (t : ScopeTree) : Prop :=
  ∀ s ∈ t.scopes, (∀ v ∈ s.locals, P v.key) ∧ ∀ e ∈ s.escaped, P e.key

namespace HasKeys

variable {P : VariableKey → Prop} {t : ScopeTree}

theorem modifyScope (h : t.HasKeys P) {f : Scope → Scope}
    (hf : ∀ s, ((∀ v ∈ s.locals, P v.key) ∧ ∀ e ∈ s.escaped, P e.key) →
      (∀ v ∈ (f s).locals, P v.key) ∧ ∀ e ∈ (f s).escaped, P e.key) (i : Nat) :
    (t.modifyScope i f).HasKeys P :=
  forall_mem_modify hf h i

theorem push (h : t.HasKeys P) (parent : Nat) (kind : ScopeKind) : (t.push parent kind).2.HasKeys P := by
  have hmodified := h.modifyScope
    (f := fun s => { s with children := s.children ++ [t.scopes.length] }) (fun _ hs => hs) parent
  intro s hs
  rcases List.mem_append.mp hs with hs | hs
  · exact hmodified s hs
  · rw [List.mem_singleton.mp hs]
    exact ⟨fun _ hv => (nomatch hv), fun _ he => (nomatch he)⟩

theorem declare (h : t.HasKeys P) {key : VariableKey} (hkey : P key) (i : Nat) (d : Declaration) :
    (t.declare i key d).2.HasKeys P := by
  unfold ScopeTree.declare
  cases t.slotIn? i key with
  | some slot => exact h
  | none =>
    refine h.modifyScope ?_ i
    intro s hs
    refine ⟨fun v hv => ?_, hs.2⟩
    rcases List.mem_append.mp hv with hv | hv
    · exact hs.1 v hv
    · rwa [List.mem_singleton.mp hv]

theorem declareAll (h : t.HasKeys P) {vs : List Variable} (hvs : ∀ v ∈ vs, P v.key) (i : Nat) (d : Declaration) :
    (t.declareAll i vs d).HasKeys P := by
  induction vs generalizing t with
  | nil => exact h
  | cons v vs ih =>
    obtain ⟨hv, hvs⟩ := List.forall_mem_cons.mp hvs
    exact ih (h.declare hv i d) hvs

theorem resolve (h : t.HasKeys P) {key : VariableKey} (hkey : P key) (start : Nat) :
    (t.resolve start key).2.HasKeys P := by
  unfold ScopeTree.resolve
  cases t.find? start key with
  | some slot => exact h
  | none => exact h.declare hkey rootScope .undeclared

theorem noteEscapes (h : t.HasKeys P) {key : VariableKey} (hkey : P key) (isAssigned : Bool) (is : List Nat) :
    (t.noteEscapes key isAssigned is).HasKeys P := by
  induction is generalizing t with
  | nil => exact h
  | cons i is ih =>
    refine ih (h.modifyScope (fun s hs => ?_) i)
    rw [locals_noteEscape]
    refine ⟨hs.1, fun e he => ?_⟩
    unfold Scope.noteEscape at he
    split at he
    · obtain ⟨e', he', rfl⟩ := List.mem_map.mp he
      split
      · exact hs.2 e' he'
      · exact hs.2 e' he'
    · rcases List.mem_append.mp he with he | he
      · exact hs.2 e he
      · rwa [List.mem_singleton.mp he]

theorem access (h : t.HasKeys P) {key : VariableKey} (hkey : P key) (start : Nat) (how : Access) :
    (t.access start key how).2.HasKeys P := by
  rw [access_eq]
  refine ((h.resolve hkey start).noteEscapes hkey _ _).modifyScope ?_ _
  intro s hs
  refine ⟨forall_mem_modify (fun v hv => ?_) hs.1 _, hs.2⟩
  rwa [Access.key_applied]

end HasKeys

end ScopeTree

/-! ### Texts of moves -/

mutual

/-- The texts of the types that a move notes, and of the variables that it declares or accesses. -/
def Move.texts : Move → List String
  | .child _ _ | .jump _ => []
  | .note t => t.texts
  | .reference v _ | .assignment _ v _ _ | .output _ v => v.texts
  | .scope _ declared moves => declared.flatMap Variable.texts ++ textsAll moves

def Move.textsAll : List Move → List String
  | [] => []
  | m :: ms => texts m ++ textsAll ms

end

theorem Move.textsAll_eq (ms : List Move) : Move.textsAll ms = ms.flatMap Move.texts := by
  induction ms with
  | nil => rfl
  | cons m ms ih => rw [textsAll, ih, List.flatMap_cons]

/-- A variable in place of a tree is what the tree is made of. -/
theorem Node.allPlain_asParameter? {ι : Type} {e : Node ι} (h : AllPlain e.texts) :
    ∀ v ∈ e.asParameter?, AllPlain v.texts := by
  intro v hv
  obtain ⟨node, form⟩ := e
  unfold asParameter? at hv
  split at hv
  next hform =>
    cases hv
    obtain rfl : form = .parameter v := hform
    rw [texts_mk] at h
    exact (allPlain_append.mp h).1
  · cases hv

namespace Moves

open Move

/-- No move among them brings in a bracket. -/
abbrev ArePlain (ms : List Move) : Prop := ∀ m ∈ ms, AllPlain m.texts

theorem plain_scope {owner : Owner} {declared : List Variable} {moves : List Move}
    (hdeclared : ∀ v ∈ declared, AllPlain v.texts) (h : ArePlain moves) :
    AllPlain (Move.scope owner declared moves).texts := by
  rw [Move.texts, textsAll_eq]
  exact allPlain_append.mpr ⟨allPlain_flatMap.mpr hdeclared, allPlain_flatMap.mpr h⟩

theorem plain_child (e : Expr) (position : Position) : AllPlain (Move.child e position).texts := allPlain_nil

theorem plain_body (e : Expr) (returns : Bool) : AllPlain (body e returns).texts := allPlain_nil

theorem plain_enclosed (kind : ScopeKind) (e : Expr) (returns : Bool) :
    AllPlain (enclosed kind e returns).texts :=
  allPlain_nil

theorem plain_noteIf (condition : Bool) {t : TypeRef} (h : AllPlain t.texts) : ArePlain (noteIf condition t) := by
  cases condition with
  | true => exact List.forall_mem_singleton.mpr h
  | false => exact List.forall_mem_nil _

theorem plain_method {method : Option MethodInfo} (h : ∀ m ∈ method, AllPlain m.texts) :
    ArePlain (Moves.method method) := by
  cases method with
  | none => exact List.forall_mem_nil _
  | some m =>
    have hm := h m rfl
    exact plain_noteIf _ (by grind [MethodInfo.texts])

theorem plain_values (es : List Expr) : ArePlain (values es) :=
  List.forall_mem_map.mpr fun _ _ => allPlain_nil

theorem plain_math : AllPlain TypeRef.math.texts := by decide

theorem plain_sequence (last : Position) (es : List Expr) : ArePlain (sequence last es) := by
  induction es with
  | nil => exact List.forall_mem_nil _
  | cons e es ih =>
    cases es with
    | nil => exact List.forall_mem_singleton.mpr (plain_child _ _)
    | cons e' es => exact List.forall_mem_cons.mpr ⟨plain_child _ _, ih⟩

theorem plain_block (node : Nat) {locals : List Variable} (h : ∀ v ∈ locals, AllPlain v.texts)
    (es : List Expr) (ty : TypeRef) (role : BlockRole) : AllPlain (block node locals es ty role).texts :=
  plain_scope h (plain_sequence _ _)

theorem plain_arguments {es : List Expr} (h : ∀ e ∈ es, AllPlain e.texts) (ps : List ParameterInfo) :
    ArePlain (arguments es ps) := by
  have hone {e : Expr} (he : AllPlain e.texts) (mode : PassingMode) : AllPlain (argument e mode).texts := by
    unfold argument
    split
    next v hv => exact Node.allPlain_asParameter? he v hv
    next v hv => exact Node.allPlain_asParameter? he v hv
    · exact allPlain_nil
  induction es generalizing ps with
  | nil => exact List.forall_mem_nil _
  | cons e es ih =>
    obtain ⟨he, hes⟩ := List.forall_mem_cons.mp h
    cases ps with
    | nil => exact List.forall_mem_cons.mpr ⟨hone he _, ih hes []⟩
    | cons p ps => exact List.forall_mem_cons.mpr ⟨hone he _, ih hes ps⟩

theorem plain_branches (test ifTrue ifFalse : Expr) (returns : Bool) :
    ArePlain (branches test ifTrue ifFalse returns) := by
  refine List.forall_mem_append.mpr ⟨List.forall_mem_cons.mpr ⟨plain_child _ _,
    List.forall_mem_singleton.mpr (plain_enclosed _ _ _)⟩, ?_⟩
  split
  · exact List.forall_mem_nil _
  · exact List.forall_mem_singleton.mpr (plain_enclosed _ _ _)

theorem plain_switch (subject : Expr) (cases : List (SwitchCase Expr)) (defaultBody : Option Expr)
    (returns : Bool) : ArePlain (switch subject cases defaultBody returns) := by
  refine List.forall_mem_append.mpr ⟨List.forall_mem_cons.mpr ⟨plain_child _ _, fun m hm => ?_⟩,
    List.forall_mem_map.mpr fun _ _ => plain_enclosed _ _ _⟩
  obtain ⟨c, -, hm⟩ := List.mem_flatMap.mp hm
  rcases List.mem_append.mp hm with hm | hm
  · exact plain_values _ m hm
  · rw [List.mem_singleton.mp hm]
    exact plain_enclosed _ _ _

theorem plain_attempt {handlers : List (Handler Expr)} (h : ∀ k ∈ handlers, AllPlain k.texts) (tried : Expr)
    (cleanup fault : Option Expr) (returns : Bool) : ArePlain (attempt tried handlers cleanup fault returns) := by
  have hhandler : ∀ k ∈ handlers, AllPlain (handler returns k).texts := by
    intro k hk
    obtain ⟨htest, hcaught⟩ := allPlain_append.mp (h k hk)
    refine plain_scope (fun v hv => ?_) ?_
    · exact allPlain_getD (show AllPlain ([] ++ _) from hcaught) v (Option.mem_toList.mp hv)
    · exact List.forall_mem_append.mpr ⟨List.forall_mem_append.mpr ⟨plain_noteIf _ htest, plain_values _⟩,
        List.forall_mem_singleton.mpr (plain_body _ _)⟩
  refine List.forall_mem_append.mpr ⟨List.forall_mem_append.mpr ⟨List.forall_mem_cons.mpr
    ⟨plain_enclosed _ _ _, List.forall_mem_map.mpr hhandler⟩, ?_⟩, ?_⟩
  · exact List.forall_mem_map.mpr fun _ _ => plain_enclosed _ _ _
  · exact List.forall_mem_map.mpr fun _ _ => plain_enclosed _ _ _

variable (settings : Settings) (mode : AnalysisMode) (node : Nat)

theorem plain_assignment (op : BinaryOp) {left : Expr} (h : AllPlain left.texts) (right : Expr)
    (isStatement : Bool) : ArePlain (assignment settings node op left right isStatement) := by
  refine List.forall_mem_append.mpr ⟨List.forall_mem_cons.mpr ⟨plain_child _ _, plain_noteIf _ plain_math⟩, ?_⟩
  split
  next v hv =>
    have hv := Node.allPlain_asParameter? h v hv
    split
    · exact List.forall_mem_singleton.mpr hv
    · exact List.forall_mem_singleton.mpr hv
  · exact List.forall_mem_singleton.mpr (plain_child _ _)

theorem plain_constant {c : Constant} (h : AllPlain (Form.constant (α := Expr) c).texts) :
    ArePlain (constant settings c) := by
  obtain ⟨value, ty⟩ := c
  obtain ⟨hty, hvalue⟩ := allPlain_append.mp h
  cases value with
  | type t => exact List.forall_mem_singleton.mpr hvalue
  | enumMember name => exact List.forall_mem_singleton.mpr hty
  | closure fields =>
    unfold constant
    dsimp only
    split
    · intro m hm
      obtain ⟨field, hfield, hm⟩ := List.mem_flatMap.mp hm
      split at hm
      · rw [List.mem_singleton.mp hm]
        exact (ConstantValue.allPlain_captured hvalue field hfield).1
      · cases hm
    · exact List.forall_mem_nil _
  | _ => exact List.forall_mem_nil _

theorem plain_unary {op : UnaryOp} {operand : Option Expr} (h : ∀ e ∈ operand, AllPlain e.texts) {ty : TypeRef}
    (hty : AllPlain ty.texts) {method : Option MethodInfo} (hmethod : ∀ m ∈ method, AllPlain m.texts) :
    ArePlain (unary op operand ty method) := by
  refine List.forall_mem_append.mpr ⟨List.forall_mem_append.mpr ⟨List.forall_mem_append.mpr
    ⟨plain_noteIf _ hty, plain_noteIf _ hty⟩, plain_method hmethod⟩, ?_⟩
  cases operand with
  | none => exact List.forall_mem_nil _
  | some e =>
    dsimp only
    split
    next v _ hv => exact List.forall_mem_singleton.mpr (Node.allPlain_asParameter? (h e rfl) v hv)
    · exact List.forall_mem_singleton.mpr (plain_child _ _)

theorem plain_lambda {parameters : List Variable} (h : ∀ v ∈ parameters, AllPlain v.texts) (lambdaBody : Expr)
    (returnType : TypeRef) : AllPlain (lambda settings node parameters lambdaBody returnType).texts := by
  refine plain_scope h (List.forall_mem_append.mpr ⟨fun m hm => ?_, ?_⟩)
  · obtain ⟨v, hv, hm⟩ := List.mem_flatMap.mp hm
    exact plain_noteIf _ (allPlain_cons.mp (h v hv)).2 m hm
  · split
    · exact List.forall_mem_singleton.mpr (plain_body _ _)
    · exact List.forall_mem_singleton.mpr (plain_child _ _)

theorem plain_call {m : MethodInfo} (hm : AllPlain m.texts) (receiver : Option Expr) {args : List Expr}
    (hargs : ∀ e ∈ args, AllPlain e.texts) : ArePlain (call settings receiver m args) := by
  obtain ⟨hnames, hgeneric⟩ := allPlain_append.mp hm
  rw [TypeRef.textsAll_eq] at hgeneric
  unfold call
  split
  · exact plain_values _
  · refine List.forall_mem_append.mpr ⟨List.forall_mem_append.mpr ⟨List.forall_mem_append.mpr
      ⟨plain_noteIf _ (by grind), ?_⟩, plain_values _⟩, plain_arguments hargs _⟩
    split
    · exact List.forall_mem_map.mpr (allPlain_flatMap.mp hgeneric)
    · exact List.forall_mem_nil _

section Form

variable {form : Form Expr} (htexts : AllPlain form.texts) (h : ∀ e ∈ form.children, AllPlain e.texts)

include htexts h

theorem plain_value : ArePlain (value settings mode node form) := by
  cases form with
  | constant c => exact plain_constant settings htexts
  | parameter v => exact List.forall_mem_singleton.mpr htexts
  | binary op left right ty method =>
    unfold value
    dsimp only
    split
    · exact plain_assignment settings node op (h left (by simp [Form.children])) right false
    · exact List.forall_mem_append.mpr ⟨List.forall_mem_append.mpr
        ⟨plain_noteIf _ plain_math, plain_method (allPlain_getD htexts)⟩, plain_values _⟩
  | unary op operand ty method =>
    exact plain_unary (fun e he => h e (Option.mem_toList.mpr he)) (allPlain_append.mp htexts).1
      (allPlain_getD htexts)
  | block locals es ty =>
    have hlocals := allPlain_flatMap.mp (allPlain_append.mp htexts).1
    refine List.forall_mem_singleton.mpr ?_
    unfold valueBlock
    split
    · exact plain_scope (List.forall_mem_nil _) (List.forall_mem_singleton.mpr (plain_block node hlocals _ _ _))
    · exact plain_block node hlocals _ _ _
  | lambda name parameters body returnType ty =>
    have hparameters := (allPlain_append.mp (allPlain_append.mp htexts).1).1
    exact List.forall_mem_singleton.mpr (plain_lambda settings node (allPlain_flatMap.mp hparameters) body returnType)
  | call receiver m args =>
    exact plain_call settings htexts receiver fun e he => h e (List.mem_append_right _ he)
  | member receiver info =>
    exact List.forall_mem_append.mpr ⟨plain_noteIf _ (by grind [Form.texts, MemberInfo.texts]), plain_values _⟩
  | new creation =>
    exact List.forall_mem_append.mpr ⟨plain_noteIf _ (allPlain_append.mp htexts).1, plain_arguments h _⟩
  | newArray elementType es bounds =>
    exact List.forall_mem_append.mpr ⟨plain_noteIf _ htexts, plain_values _⟩
  | memberInit creation bindings =>
    have hty := (allPlain_append.mp (allPlain_append.mp htexts).1).1
    exact List.forall_mem_append.mpr ⟨List.forall_mem_cons.mpr ⟨hty, plain_values _⟩, plain_values _⟩
  | listInit creation items =>
    have hty := (allPlain_append.mp htexts).1
    exact List.forall_mem_append.mpr ⟨List.forall_mem_cons.mpr ⟨hty, plain_values _⟩, plain_values _⟩
  | loop body breakTarget continueTarget => exact List.forall_mem_singleton.mpr (plain_enclosed _ _ _)
  | jump kind target result ty =>
    refine List.forall_mem_append.mpr ⟨?_, plain_values _⟩
    split
    · exact List.forall_mem_singleton.mpr allPlain_nil
    · exact List.forall_mem_nil _
  | switch subject cases defaultBody ty => exact plain_switch _ _ _ _
  | «try» tried handlers cleanup fault ty =>
    exact plain_attempt (allPlain_flatMap.mp (allPlain_append.mp htexts).1) _ _ _ _
  | default ty => exact plain_noteIf _ htexts
  | typeTest e tested exact => exact List.forall_mem_cons.mpr ⟨htexts, List.forall_mem_singleton.mpr (plain_child _ _)⟩
  | comment s => exact List.forall_mem_nil _
  | conditional | invoke | label | index | extension => exact plain_values _

/-- **All names that the visit of a node brings in are texts of the node.** -/
theorem plain_ofForm (position : Position) : ArePlain (ofForm settings mode node form position) := by
  have hvalue := plain_value settings mode node htexts h
  cases position with
  | value => exact hvalue
  | statement =>
    cases form with
    | block locals es ty =>
      have hlocals := allPlain_flatMap.mp (allPlain_append.mp htexts).1
      exact List.forall_mem_singleton.mpr (plain_block node hlocals _ _ _)
    | binary op left right ty method =>
      unfold ofForm statement
      dsimp only
      split
      · exact plain_assignment settings node op (h left (by simp [Form.children])) right true
      · exact hvalue
    | conditional test ifTrue ifFalse ty => exact plain_branches _ _ _ _
    | _ => exact hvalue
  | returning =>
    cases form with
    | block locals es ty =>
      have hlocals := allPlain_flatMap.mp (allPlain_append.mp htexts).1
      exact List.forall_mem_singleton.mpr (plain_block node hlocals _ _ _)
    | conditional test ifTrue ifFalse ty =>
      unfold ofForm returning
      dsimp only
      split
      · exact hvalue
      · exact plain_branches _ _ _ _
    | switch subject cases defaultBody ty => exact plain_switch _ _ _ _
    | «try» tried handlers cleanup fault ty =>
      exact plain_attempt (allPlain_flatMap.mp (allPlain_append.mp htexts).1) _ _ _ _
    | _ => exact hvalue

end Form

end Moves

/-! ### Names in an analysis -/

/-- There are no brackets in the names of the analysis. -/
structure Analysis.IsPlain (a : Analysis) : Prop where
  namespaces : AllPlain a.namespaces.spaces
  scopes : a.scopes.HasKeys fun key => AllPlain key.texts

namespace Visit

variable {settings : Settings}

theorem isPlain_noteType {t : TypeRef} (ht : AllPlain t.texts) {s : Survey} (h : s.analysis.IsPlain) :
    ((noteType settings t).after s).analysis.IsPlain := by
  unfold noteType
  split
  · exact h
  · have hneeded := ht.mono t.requiredNamespaces_subset
    refine ⟨fun space hspace => ?_, h.scopes⟩
    rcases NamespaceSet.addAll_subset _ _ hspace with hspace | ⟨hspace, -⟩
    · exact h.namespaces space hspace
    · exact hneeded space hspace

theorem isPlain_entered {s : Survey} (h : s.analysis.IsPlain) (owner : Owner) {declared : List Variable}
    (hdeclared : ∀ v ∈ declared, AllPlain v.texts) : (s.entered owner declared).analysis.IsPlain := by
  refine ⟨?_, (h.scopes.push s.current owner.kind).declareAll hdeclared _ _⟩
  have hsame : (s.entered owner declared).analysis.namespaces = s.analysis.namespaces := by
    cases owner <;> rfl
  rw [hsame]
  exact h.namespaces

mutual

theorem isPlain_perform : (m : Move) → AllPlain m.texts →
    (∀ c ∈ m.visits, ∀ s : Survey, s.analysis.IsPlain → ((tree settings c.1 c.2).after s).analysis.IsPlain) →
    ∀ s : Survey, s.analysis.IsPlain → ((perform settings m).after s).analysis.IsPlain
  | .child e position, _, hvisits, s, h => hvisits (e, position) (List.mem_singleton_self _) s h
  | .note _, ht, _, _, h => isPlain_noteType ht h
  | .jump _, _, _, _, h => ⟨h.namespaces, h.scopes⟩
  | .reference _ _, hv, _, s, h => ⟨h.namespaces, h.scopes.access hv s.current _⟩
  | .assignment _ _ _ _, hv, _, s, h => ⟨h.namespaces, h.scopes.access hv s.current _⟩
  | .output _ _, hv, _, s, h => ⟨h.namespaces, h.scopes.access hv s.current _⟩
  | .scope owner declared moves, htexts, hvisits, s, h => by
    obtain ⟨hdeclared, hmoves⟩ := allPlain_append.mp htexts
    show ((opened owner declared (performAll settings moves)).after s).analysis.IsPlain
    rw [after_opened]
    exact isPlain_performAll moves hmoves hvisits _ (isPlain_entered h owner (allPlain_flatMap.mp hdeclared))

theorem isPlain_performAll : (ms : List Move) → AllPlain (Move.textsAll ms) →
    (∀ c ∈ Move.visitsAll ms, ∀ s : Survey, s.analysis.IsPlain →
      ((tree settings c.1 c.2).after s).analysis.IsPlain) →
    ∀ s : Survey, s.analysis.IsPlain → ((performAll settings ms).after s).analysis.IsPlain
  | [], _, _, _, h => h
  | m :: ms, htexts, hvisits, s, h => by
    obtain ⟨hm, hms⟩ := allPlain_append.mp htexts
    have hfirst := isPlain_perform m hm (fun c hc => hvisits c (List.mem_append_left _ hc)) s h
    exact isPlain_performAll ms hms (fun c hc => hvisits c (List.mem_append_right _ hc)) _ hfirst

end

theorem isPlain_tree {e : Expr} (h : AllPlain e.texts) (position : Position) {s : Survey}
    (hs : s.analysis.IsPlain) : ((tree settings e position).after s).analysis.IsPlain := by
  induction e using Node.induction generalizing position s with
  | h node form ih =>
    rw [Node.texts_mk] at h
    obtain ⟨htexts, hchildren⟩ := allPlain_append.mp h
    have hchildren := allPlain_flatMap.mp hchildren
    rw [after_tree]
    refine isPlain_performAll _ ?_ (fun c hc s' hs' => ?_) s hs
    · rw [Move.textsAll_eq]
      exact allPlain_flatMap.mpr (Moves.plain_ofForm settings _ node htexts hchildren position)
    · have hmem := Moves.mem_children_of_visits settings s.analysis.mode hc
      exact ih c.1 hmem (hchildren c.1 hmem) c.2 hs'

/-- **There are no brackets in the names of an analysis** if there are none in the texts of the tree. -/
theorem isPlain_run {e : Expr} (h : AllPlain e.texts) (mode : AnalysisMode) (position : Position) :
    (run settings mode e position).IsPlain := by
  have hstart : (Survey.start mode).analysis.IsPlain := by
    refine ⟨allPlain_nil, fun s hs => ?_⟩
    rw [List.mem_singleton.mp hs]
    exact ⟨fun _ hv => (nomatch hv), fun _ he => (nomatch he)⟩
  have hvisited : ((tree settings e position).after (Survey.start mode)).analysis.IsPlain :=
    isPlain_tree h position hstart
  have hnotes {ts : List TypeRef} (hts : ∀ t ∈ ts, AllPlain t.texts) {s : Survey} (hs : s.analysis.IsPlain) :
      (after (ts.forM (noteType settings)) s).analysis.IsPlain := by
    induction ts generalizing s with
    | nil => exact hs
    | cons t ts ih =>
      obtain ⟨ht, hts⟩ := List.forall_mem_cons.mp hts
      exact ih hts (isPlain_noteType ht hs)
  rw [after_run]
  refine hnotes (fun t ht => ?_) hvisited
  obtain ⟨⟨slot, v⟩, hv, ht⟩ := List.mem_filterMap.mp ht
  have hkey : AllPlain v.key.texts := by
    obtain ⟨⟨s, i⟩, hs, hv⟩ := List.mem_flatMap.mp hv
    obtain ⟨⟨w, j⟩, hw, heq⟩ := List.mem_map.mp hv
    cases heq
    exact (hvisited.scopes s (List.fst_mem_of_mem_zipIdx hs)).1 v (List.fst_mem_of_mem_zipIdx hw)
  obtain rfl := Option.some.inj (Option.ite_none_right_eq_some.mp ht).2
  exact (allPlain_cons.mp hkey).2

end Visit

/-! ### What is read off an analysis -/

namespace Analysis.IsPlain

variable {a : Analysis} (h : a.IsPlain)

include h

theorem requiredNamespaces : AllPlain a.requiredNamespaces :=
  fun space hspace => h.namespaces space (mem_sortNamespaces.mp hspace)

theorem blockDeclarations (node : Nat) : ∀ key ∈ a.blockDeclarations node, AllPlain key.texts := by
  intro key hkey
  unfold Analysis.blockDeclarations at hkey
  split at hkey
  next s hs =>
    obtain ⟨v, hv, rfl⟩ := List.mem_map.mp hkey
    obtain ⟨scope, -, hscope⟩ := Option.bind_eq_some_iff.mp hs
    exact (h.scopes s (List.mem_of_getElem? hscope)).1 v (List.mem_filter.mp hv).1
  · cases hkey

theorem escaped (b : ExtractedBlock) : ∀ e ∈ a.escaped b, AllPlain e.key.texts := by
  intro e he
  unfold Analysis.escaped at he
  cases hs : a.scopes.scope? b.scope with
  | none =>
    rw [hs] at he
    cases he
  | some s =>
    rw [hs] at he
    exact (h.scopes s (List.mem_of_getElem? hs)).2 e he

end Analysis.IsPlain

end TreeScribe
