import Mathlib.Data.List.Flatten
import Mathlib.Data.List.Nodup
import Mathlib.Data.List.Pairwise
import Mathlib.Data.List.Perm.Subperm
import TreeScribe.Proofs.Analysis.Moves

/-! The nodes that a visit meets.

A visit meets a node in a position if a chain of moves leads there. No move visits a child twice
(`Moves.visits_subperm`), so that in a tree whose nodes are all different each of them is met in at
most one position (`Visit.Meets.eq_of_label`). -/
namespace TreeScribe

open scoped List

/-! ### Labels -/

namespace Node

variable {ι : Type}

/-- The labels of all nodes, a shared one at each place. -/
def labels : Node ι → List ι := fold fun l f => l :: f.children.flatten

theorem labels_mk (l : ι) (f : Form (Node ι)) :
    labels (.mk l f) = l :: f.children.flatMap labels := by
  rw [labels, fold, para_mk, Form.map_map, Form.children_map]
  rfl

theorem label_mem_labels (n : Node ι) : n.label ∈ n.labels := by
  obtain ⟨l, f⟩ := n
  rw [labels_mk]
  exact List.mem_cons_self ..

theorem labels_subset_of_mem {f : Form (Node ι)} {c : Node ι} (h : c ∈ f.children) :
    c.labels ⊆ f.children.flatMap labels :=
  fun _ hx => List.mem_flatMap.mpr ⟨c, h, hx⟩

/-- All nodes, a shared one at each place. -/
def nodes : Node ι → List (Node ι) :=
  para fun l f => .mk l (f.map (·.1)) :: f.children.flatMap (·.2)

theorem nodes_mk (l : ι) (f : Form (Node ι)) : nodes (.mk l f) = .mk l f :: f.children.flatMap nodes := by
  have hself : (f.map fun c => (c, nodes c)).map (·.1) = f := by
    rw [Form.map_map]
    exact Form.map_id f
  rw [nodes, para_mk]
  show Node.mk l ((f.map fun c => (c, nodes c)).map (·.1)) :: _ = _
  rw [hself, Form.children_map, List.flatMap_map]

theorem mem_nodes_self (n : Node ι) : n ∈ n.nodes := by
  obtain ⟨l, f⟩ := n
  rw [nodes_mk]
  exact List.mem_cons_self ..

theorem mem_nodes_of_mem {l : ι} {f : Form (Node ι)} {c x : Node ι} (hc : c ∈ f.children)
    (hx : x ∈ c.nodes) : x ∈ (Node.mk l f).nodes := by
  rw [nodes_mk]
  exact List.mem_cons_of_mem _ (List.mem_flatMap.mpr ⟨c, hc, hx⟩)

/-- What passes from a node to its children holds of all nodes of a tree. -/
theorem forall_nodes {P : Node ι → Prop} (h : ∀ l f, P (.mk l f) → ∀ c ∈ f.children, P c) {n : Node ι}
    (hn : P n) : ∀ x ∈ n.nodes, P x := by
  induction n using Node.induction with
  | h l f ih =>
    intro x hx
    rw [nodes_mk] at hx
    rcases List.mem_cons.mp hx with rfl | hx
    · exact hn
    · obtain ⟨c, hc, hx⟩ := List.mem_flatMap.mp hx
      exact ih c hc (h l f hn c hc) x hx

theorem mem_nodes_trans {n x y : Node ι} (hx : x ∈ y.nodes) (hy : y ∈ n.nodes) : x ∈ n.nodes := by
  refine forall_nodes (P := fun y => y.nodes ⊆ n.nodes) (fun l f h c hc => ?_)
    (List.Subset.refl _) y hy hx
  exact fun z hz => h (mem_nodes_of_mem hc hz)

/-- No node below is shared either. -/
theorem nodup_labels_of_mem {n x : Node ι} (h : n.labels.Nodup) (hx : x ∈ n.nodes) : x.labels.Nodup := by
  refine forall_nodes (P := fun n => n.labels.Nodup) (fun l f hnodup c hc => ?_) h x hx
  rw [labels_mk, List.nodup_cons] at hnodup
  exact (List.nodup_flatMap.mp hnodup.2).1 c hc

theorem map_label_nodes (n : Node ι) : n.nodes.map label = n.labels := by
  induction n using Node.induction with
  | h l f ih =>
    rw [nodes_mk, labels_mk, List.map_cons, List.map_flatMap]
    refine congrArg (l :: ·) ?_
    rw [List.flatMap_def, List.flatMap_def, List.map_congr_left ih]

end Node

/-! ### Visited children -/

mutual

/-- The children that a move visits, with their positions. -/
def Move.visits : Move → List (Expr × Position)
  | .child e position => [(e, position)]
  | .scope _ _ moves => Move.visitsAll moves
  | _ => []

def Move.visitsAll : List Move → List (Expr × Position)
  | [] => []
  | m :: ms => m.visits ++ Move.visitsAll ms

end

namespace Move

@[simp] theorem visitsAll_nil : visitsAll [] = [] := rfl

@[simp] theorem visitsAll_cons (m : Move) (ms : List Move) :
    visitsAll (m :: ms) = m.visits ++ visitsAll ms :=
  rfl

@[simp] theorem visitsAll_append (first moves : List Move) :
    visitsAll (first ++ moves) = visitsAll first ++ visitsAll moves := by
  induction first with
  | nil => rfl
  | cons m first ih => simp [ih]

theorem visitsAll_flatMap {α : Type} (f : α → List Move) (as : List α) :
    visitsAll (as.flatMap f) = as.flatMap fun a => visitsAll (f a) := by
  induction as with
  | nil => rfl
  | cons a as ih => simp [ih]

theorem visitsAll_map {α : Type} (f : α → Move) (as : List α) :
    visitsAll (as.map f) = as.flatMap fun a => (f a).visits := by
  induction as with
  | nil => rfl
  | cons a as ih => simp [ih]

end Move

namespace Moves

open Move

variable (settings : Settings) (mode : AnalysisMode) (node : Nat)

@[simp] theorem visits_noteIf (condition : Bool) (t : TypeRef) :
    visitsAll (noteIf condition t) = [] := by
  cases condition <;> rfl

@[simp] theorem visits_method (m : Option MethodInfo) : visitsAll (method m) = [] := by
  cases m with
  | none => rfl
  | some m => exact visits_noteIf ..

@[simp] theorem visits_constant (c : Constant) : visitsAll (constant settings c) = [] := by
  obtain ⟨value, ty⟩ := c
  cases value with
  | closure fields =>
    unfold constant
    dsimp only
    split
    · rw [visitsAll_flatMap, List.flatMap_eq_nil_iff]
      intro field _
      cases field.value <;> rfl
    · rfl
  | _ => rfl

@[simp] theorem visits_values (es : List Expr) :
    visitsAll (values es) = es.map fun e => (e, Position.value) := by
  rw [values, visitsAll_map, List.map_eq_flatMap]
  rfl

theorem map_visits_values (es : List Expr) : (visitsAll (values es)).map (·.1) = es := by
  rw [visits_values, List.map_map]
  exact List.map_id es

@[simp] theorem visits_enclosed (kind : ScopeKind) (e : Expr) (returns : Bool) :
    (enclosed kind e returns).visits = [(e, Position.ofBody returns)] := by
  simp [enclosed, body, visits]

theorem visits_sequence_map (last : Position) (es : List Expr) :
    (visitsAll (sequence last es)).map (·.1) = es := by
  induction es with
  | nil => rfl
  | cons e es ih =>
    cases es with
    | nil => rfl
    | cons e' es =>
      show e :: (visitsAll (sequence last (e' :: es))).map (·.1) = _
      rw [ih]

@[simp] theorem visits_block (locals : List Variable) (es : List Expr) (ty : TypeRef)
    (role : BlockRole) :
    (block node locals es ty role).visits = visitsAll (sequence (role.lastPosition ty) es) :=
  rfl

theorem visits_valueBlock (locals : List Variable) (es : List Expr) (ty : TypeRef) :
    (valueBlock mode node locals es ty).visits =
      visitsAll (sequence
        ((if mode == .source && !Form.isTransparent locals es then BlockRole.ofBody (!ty.isVoid)
          else .value).lastPosition ty) es) := by
  unfold valueBlock
  split <;> simp [visits]

theorem visits_arguments_sublist (es : List Expr) (ps : List ParameterInfo) :
    (visitsAll (arguments es ps)).map (·.1) <+ es := by
  have hone (e : Expr) (m : PassingMode) : ((argument e m).visits).map (·.1) <+ [e] := by
    unfold argument
    split
    · exact List.nil_sublist _
    · exact List.nil_sublist _
    · exact List.Sublist.refl _
  induction es generalizing ps with
  | nil => cases ps <;> exact List.Sublist.refl _
  | cons e es ih =>
    cases ps with
    | nil =>
      rw [arguments, visitsAll_cons, List.map_append]
      exact (hone e .value).append (ih [])
    | cons p ps =>
      rw [arguments, visitsAll_cons, List.map_append]
      exact (hone e p.mode).append (ih ps)

theorem visits_call_sublist (receiver : Option Expr) (m : MethodInfo) (args : List Expr) :
    (visitsAll (call settings receiver m args)).map (·.1) <+ receiver.toList ++ args := by
  have hnotes (ts : List TypeRef) : visitsAll (ts.map .note) = [] := by
    rw [visitsAll_map, List.flatMap_eq_nil_iff]
    exact fun _ _ => rfl
  have hgeneric : visitsAll (if settings.writesGenericArgs m then m.genericArgs.map .note else [])
      = [] := by
    split
    · exact hnotes _
    · rfl
  unfold call
  split
  · rw [map_visits_values]
    exact List.sublist_append_right ..
  · rw [visitsAll_append, visitsAll_append, visitsAll_append, visits_noteIf, hgeneric,
      List.nil_append, List.nil_append, List.map_append, map_visits_values]
    exact (List.Sublist.refl _).append (visits_arguments_sublist args m.parameters)

theorem visits_branches_sublist (test ifTrue ifFalse : Expr) (returns : Bool) :
    (visitsAll (branches test ifTrue ifFalse returns)).map (·.1) <+ [test, ifTrue, ifFalse] := by
  unfold branches
  split <;> simp [visits]

theorem visits_switch_map (subject : Expr) (cases : List (SwitchCase Expr))
    (defaultBody : Option Expr) (returns : Bool) :
    (visitsAll (switch subject cases defaultBody returns)).map (·.1) =
      subject :: cases.flatMap (fun c => c.tests ++ [c.body]) ++ defaultBody.toList := by
  have hdefault : (visitsAll (defaultBody.toList.map (enclosed .switchCase · returns))).map (·.1) =
      defaultBody.toList := by
    cases defaultBody <;> simp
  unfold switch
  simp only [List.cons_append, visitsAll_cons, visitsAll_append, List.map_append, hdefault,
    visitsAll_flatMap, List.map_flatMap]
  simp [visits, Function.comp_def]

theorem visits_attempt_map (tried : Expr) (handlers : List (Handler Expr))
    (cleanup fault : Option Expr) (returns : Bool) :
    (visitsAll (attempt tried handlers cleanup fault returns)).map (·.1) =
      tried :: handlers.flatMap (fun h => h.filter.toList ++ [h.body]) ++ cleanup.toList ++
        fault.toList := by
  unfold attempt
  simp only [List.cons_append, visitsAll_cons, visitsAll_append, List.map_append, visitsAll_map,
    List.map_flatMap]
  simp [visits, handler, body, Function.comp_def]

/-- The value of an assignment is visited before its target. -/
theorem visits_assignment_subperm (op : BinaryOp) (left right : Expr) (isStatement : Bool) :
    (visitsAll (assignment settings node op left right isStatement)).map (·.1) <+~ [left, right] := by
  have hright : [right] <+~ [left, right] := (List.sublist_cons_self left [right]).subperm
  unfold assignment
  rw [visitsAll_append, visitsAll_cons, visits_noteIf, List.append_nil]
  split
  · split <;> exact hright
  · exact (List.Perm.swap left right []).subperm

theorem visits_unary_sublist (op : UnaryOp) (operand : Option Expr) (ty : TypeRef)
    (m : Option MethodInfo) : (visitsAll (unary op operand ty m)).map (·.1) <+ operand.toList := by
  unfold unary
  simp only [visitsAll_append, visits_noteIf, visits_method, List.nil_append]
  split
  · split
    · exact List.nil_sublist _
    · exact List.Sublist.refl _
  · exact List.Sublist.refl _

theorem visits_value_subperm (f : Form Expr) :
    (visitsAll (value settings mode node f)).map (·.1) <+~ f.children := by
  have hvalues {es : List Expr} {f : Form Expr} (h : es <+ f.children) :
      (visitsAll (values es)).map (·.1) <+~ f.children := by
    rw [map_visits_values]
    exact h.subperm
  have hnone {f : Form Expr} : [] <+~ f.children := (List.nil_sublist _).subperm
  have hnoted (t : TypeRef) (es : List Expr) :
      (visitsAll (.note t :: values es)).map (·.1) = es :=
    map_visits_values es
  cases f with
  | constant c =>
    rw [value, visits_constant]
    exact hnone
  | parameter v => exact hnone
  | binary op left right ty m =>
    unfold value
    dsimp only
    split
    · exact visits_assignment_subperm ..
    · rw [visitsAll_append, visitsAll_append, visits_noteIf, visits_method]
      exact hvalues (List.Sublist.refl [left, right])
  | unary op operand ty m => exact (visits_unary_sublist ..).subperm
  | conditional test ifTrue ifFalse ty => exact hvalues (List.Sublist.refl [test, ifTrue, ifFalse])
  | block locals es ty =>
    rw [value, visitsAll_cons, visitsAll_nil, List.append_nil, visits_valueBlock,
      visits_sequence_map]
    exact List.Subperm.refl es
  | lambda name parameters lambdaBody returnType ty =>
    have hnotes : visitsAll (parameters.flatMap fun v =>
        noteIf (settings.writesParameterTypes parameters) v.ty) = [] := by
      rw [visitsAll_flatMap, List.flatMap_eq_nil_iff]
      exact fun _ _ => visits_noteIf ..
    rw [value, visitsAll_cons, visitsAll_nil, List.append_nil, lambda, visits, visitsAll_append,
      hnotes, List.nil_append]
    split <;> exact List.Subperm.refl [lambdaBody]
  | call receiver m args => exact (visits_call_sublist ..).subperm
  | invoke target args ty => exact hvalues (List.Sublist.refl (target :: args))
  | member receiver info =>
    rw [value, visitsAll_append, visits_noteIf]
    exact hvalues List.filter_sublist
  | new creation =>
    rw [value, visitsAll_append, visits_noteIf]
    exact (visits_arguments_sublist ..).subperm
  | newArray elementType expressions bounds =>
    rw [value, visitsAll_append, visits_noteIf]
    exact hvalues (List.Sublist.refl expressions)
  | memberInit creation bindings =>
    rw [value, visitsAll_append, List.map_append, hnoted, map_visits_values]
    exact List.Subperm.refl _
  | listInit creation items =>
    rw [value, visitsAll_append, List.map_append, hnoted, map_visits_values]
    exact List.Subperm.refl _
  | loop loopBody breakTarget continueTarget => exact List.Subperm.refl [loopBody]
  | jump kind target result ty =>
    have hjump : visitsAll (if kind == .goto then [.jump target] else []) = [] := by
      split <;> rfl
    rw [value, visitsAll_append, hjump]
    exact hvalues (List.Sublist.refl result.toList)
  | label target defaultValue => exact hvalues (List.Sublist.refl defaultValue.toList)
  | switch subject cases defaultBody ty =>
    rw [value, visits_switch_map]
    exact List.Subperm.refl _
  | «try» tried handlers cleanup fault ty =>
    rw [value, visits_attempt_map]
    exact List.Subperm.refl _
  | default ty =>
    rw [value, visits_noteIf]
    exact hnone
  | index object indexer args ty => exact hvalues (List.Sublist.refl (object :: args))
  | typeTest expression operand exact => exact List.Subperm.refl [expression]
  | comment s => exact hnone
  | extension name ty display operands => exact hvalues (List.Sublist.refl operands)

/-- No child is visited twice. -/
theorem visits_subperm (f : Form Expr) (position : Position) :
    (visitsAll (ofForm settings mode node f position)).map (·.1) <+~ f.children := by
  have hvalue := visits_value_subperm settings mode node f
  have hblock {locals : List Variable} {es : List Expr} {ty : TypeRef} (role : BlockRole) :
      (visitsAll [block node locals es ty role]).map (·.1) <+~ (Form.block locals es ty).children := by
    rw [visitsAll_cons, visitsAll_nil, List.append_nil, visits_block, visits_sequence_map]
    exact List.Subperm.refl es
  cases position with
  | value => exact hvalue
  | statement =>
    cases f with
    | block locals es ty => exact hblock .discard
    | binary op left right ty m =>
      unfold ofForm statement
      dsimp only
      split
      · exact visits_assignment_subperm ..
      · exact hvalue
    | conditional test ifTrue ifFalse ty => exact (visits_branches_sublist ..).subperm
    | _ => exact hvalue
  | returning =>
    cases f with
    | block locals es ty => exact hblock .return
    | conditional test ifTrue ifFalse ty =>
      unfold ofForm returning
      dsimp only
      split
      · exact hvalue
      · exact (visits_branches_sublist ..).subperm
    | switch subject cases defaultBody ty =>
      rw [ofForm, returning, visits_switch_map]
      exact List.Subperm.refl _
    | «try» tried handlers cleanup fault ty =>
      rw [ofForm, returning, visits_attempt_map]
      exact List.Subperm.refl _
    | _ => exact hvalue

/-- The children that the visit of a tree visits, with their positions. -/
def visits (e : Expr) (position : Position) : List (Expr × Position) :=
  visitsAll (ofExpr settings mode e position)

theorem mem_children_of_visits {e c : Expr} {p q : Position}
    (h : (c, q) ∈ visits settings mode e p) : c ∈ e.form.children :=
  (visits_subperm settings mode e.label e.form p).subset (List.mem_map_of_mem h)

end Moves

/-! ### Meeting nodes -/

namespace Visit

variable (settings : Settings) (mode : AnalysisMode)

/-- The visit of a tree in some position meets a node in some position. -/
inductive Meets : Expr → Position → Expr → Position → Prop where
  | here (e : Expr) (p : Position) : Meets e p e p
  | there {e c x : Expr} {p q a : Position} :
    (c, q) ∈ Moves.visits settings mode e p → Meets c q x a → Meets e p x a

namespace Meets

variable {settings : Settings} {mode : AnalysisMode} {e x y z : Expr} {p a b q : Position}

theorem trans (h : Meets settings mode x a y b) (h' : Meets settings mode y b z q) :
    Meets settings mode x a z q := by
  induction h with
  | here => exact h'
  | there hmem _ ih => exact .there hmem (ih h')

theorem label_mem (h : Meets settings mode e p x a) : x.label ∈ e.labels := by
  induction h with
  | here => exact Node.label_mem_labels _
  | @there e c x p q a hmem _ ih =>
    obtain ⟨l, f⟩ := e
    rw [Node.labels_mk]
    have hc := Moves.mem_children_of_visits settings mode hmem
    exact List.mem_cons_of_mem _ (Node.labels_subset_of_mem hc ih)

theorem mem_nodes (h : Meets settings mode e p x a) : x ∈ e.nodes := by
  induction h with
  | here e p => exact e.mem_nodes_self
  | @there e c x p q a hmem _ ih =>
    obtain ⟨l, f⟩ := e
    exact Node.mem_nodes_of_mem (Moves.mem_children_of_visits settings mode hmem) ih

/-- Two children of one visit that have a label in common are the same visit. -/
theorem visit_eq_of_label {l : Nat} {f : Form Expr} (hnodup : (f.children.flatMap Node.labels).Nodup)
    {v v' : Expr × Position} (hv : v ∈ Moves.visits settings mode (.mk l f) p)
    (hv' : v' ∈ Moves.visits settings mode (.mk l f) p) {n : Nat} (hn : n ∈ v.1.labels)
    (hn' : n ∈ v'.1.labels) : v = v' := by
  obtain ⟨cs, hperm, hsublist⟩ := Moves.visits_subperm settings mode l f p
  have hall : ((Moves.visits settings mode (.mk l f) p).flatMap fun v => v.1.labels).Nodup := by
    rw [← List.flatMap_map]
    exact ((hperm.flatMap fun _ _ => List.Perm.refl _).nodup_iff).mp
      (hnodup.sublist (hsublist.flatMap Node.labels))
  have : Std.Symm (Function.onFun List.Disjoint fun v : Expr × Position => v.1.labels) :=
    ⟨fun _ _ h _ ha hb => h hb ha⟩
  by_contra hne
  exact (List.nodup_flatMap.mp hall).2.forall hv hv' hne hn hn'

/-- **In a tree without shared nodes, each node is met in one position at most.** -/
theorem eq_of_label (hnodup : e.labels.Nodup) {x' : Expr} {a' : Position}
    (h : Meets settings mode e p x a) (h' : Meets settings mode e p x' a')
    (hlabel : x.label = x'.label) : x = x' ∧ a = a' := by
  -- no node below has the label of the tree
  have hbelow {e c x : Expr} {p q a : Position} (hnodup : e.labels.Nodup)
      (hmem : (c, q) ∈ Moves.visits settings mode e p) (hx : Meets settings mode c q x a) :
      e.label ≠ x.label := by
    obtain ⟨l, f⟩ := e
    rw [Node.labels_mk, List.nodup_cons] at hnodup
    rintro rfl
    exact hnodup.1
      (Node.labels_subset_of_mem (Moves.mem_children_of_visits settings mode hmem) hx.label_mem)
  induction h with
  | here e p =>
    cases h' with
    | here => exact ⟨rfl, rfl⟩
    | there hmem hx => exact absurd hlabel (hbelow hnodup hmem hx)
  | @there e c x p q a hmem hx ih =>
    cases h' with
    | here => exact absurd hlabel.symm (hbelow hnodup hmem hx)
    | there hmem' hx' =>
      obtain ⟨l, f⟩ := e
      rw [Node.labels_mk, List.nodup_cons] at hnodup
      obtain ⟨rfl, rfl⟩ := Prod.mk.inj (visit_eq_of_label hnodup.2 hmem hmem'
        hx.label_mem (hlabel ▸ hx'.label_mem))
      exact ih ((List.nodup_flatMap.mp hnodup.2).1 _
        (Moves.mem_children_of_visits settings mode hmem)) hx' hlabel

end Meets

end Visit
end TreeScribe
