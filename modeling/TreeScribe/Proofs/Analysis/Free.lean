import TreeScribe.Proofs.Analysis.Keeps

/-! The free variables of a tree, and those that escape from a method.

A block that becomes a method is given the variables that escape from its scope. These are the
variables that are free in the block (`Visit.run_extracted`), wherever the block stands: an access
crosses into the scope of the method exactly if nothing within declares its variable. -/
namespace TreeScribe

/-! ### Free variables -/

/-- The keys that none of the variables has. -/
def unbound (declared : List Variable) (keys : List VariableKey) : List VariableKey :=
  keys.filter fun key => !declared.any (·.key == key)

@[simp] theorem mem_unbound {declared : List Variable} {keys : List VariableKey} {key : VariableKey} :
    key ∈ unbound declared keys ↔ key ∈ keys ∧ ∀ v ∈ declared, v.key ≠ key := by
  simp [unbound]

/-- The variables that a node uses and does not declare, given those of its children. The receiver of
a concatenation is not written. -/
def Form.free (settings : Settings) : Form (List VariableKey) → List VariableKey
  | .parameter v => [v.key]
  | .block locals expressions _ => unbound locals expressions.flatten
  | .lambda _ parameters body _ _ => unbound parameters body
  | .call receiver m args =>
    (if settings.writesConcat m then [] else receiver.toList.flatten) ++ args.flatten
  | .try tried handlers cleanup fault _ =>
    tried ++ handlers.flatMap (fun h => unbound h.caught.toList (h.filter.toList.flatten ++ h.body)) ++
      cleanup.toList.flatten ++ fault.toList.flatten
  | form => form.children.flatten

namespace Node

variable {ι : Type} (settings : Settings)

/-- The variables that a tree uses and does not declare. -/
def free : Node ι → List VariableKey := fold fun _ f => f.free settings

theorem free_mk (l : ι) (f : Form (Node ι)) :
    free settings (.mk l f) = (f.map (free settings)).free settings := by
  rw [free, fold, para_mk, Form.map_map]
  rfl

/-- A node that declares nothing uses what its children use. -/
theorem free_eq_children (l : ι) {f : Form (Node ι)}
    (h : (f.map (free settings)).free settings = (f.map (free settings)).children.flatten) :
    free settings (.mk l f) = f.children.flatMap (free settings) := by
  rw [free_mk, h, Form.children_map, List.flatMap_def]

theorem free_block (l : ι) (locals : List Variable) (es : List (Node ι)) (ty : TypeRef) :
    free settings (.mk l (.block locals es ty)) = unbound locals (es.flatMap (free settings)) := by
  rw [free_mk, List.flatMap_def]
  rfl

theorem free_of_asParameter? {n : Node ι} {v : Variable} (h : n.asParameter? = some v) :
    n.free settings = [v.key] := by
  obtain ⟨l, f⟩ := n
  cases f with
  | parameter w =>
    cases h
    exact free_mk ..
  | _ => cases h

theorem free_of_isEmpty {n : Node ι} (h : n.isEmpty = true) : n.free settings = [] := by
  obtain ⟨l, f⟩ := n
  cases f with
  | default ty => exact free_mk ..
  | _ => cases h

theorem free_of_isClosure {n : Node ι} (h : n.isClosure = true) : n.free settings = [] := by
  obtain ⟨l, f⟩ := n
  cases f with
  | constant c => exact free_mk ..
  | _ => cases h

end Node

/-! ### The free variables of moves -/

section Moves

variable (settings : Settings)

mutual

/-- The variables that a move accesses outside of the scopes that it opens. -/
def Move.free : Move → List VariableKey
  | .child e _ => e.free settings
  | .note _ | .jump _ => []
  | .reference v _ | .assignment _ v _ _ | .output _ v => [v.key]
  | .scope _ declared moves => unbound declared (Move.freeAll moves)

def Move.freeAll : List Move → List VariableKey
  | [] => []
  | m :: ms => m.free ++ Move.freeAll ms

end

namespace Move

@[simp] theorem freeAll_nil : freeAll settings [] = [] := rfl

@[simp] theorem freeAll_cons (m : Move) (ms : List Move) :
    freeAll settings (m :: ms) = m.free settings ++ freeAll settings ms :=
  rfl

@[simp] theorem freeAll_append (first moves : List Move) :
    freeAll settings (first ++ moves) = freeAll settings first ++ freeAll settings moves := by
  induction first with
  | nil => rfl
  | cons m first ih => simp [ih]

theorem freeAll_flatMap {α : Type} (f : α → List Move) (as : List α) :
    freeAll settings (as.flatMap f) = as.flatMap fun a => freeAll settings (f a) := by
  induction as with
  | nil => rfl
  | cons a as ih => simp [ih]

theorem freeAll_map {α : Type} (f : α → Move) (as : List α) :
    freeAll settings (as.map f) = as.flatMap fun a => (f a).free settings := by
  induction as with
  | nil => rfl
  | cons a as ih => simp [ih]

end Move

namespace Moves

open Move

variable (mode : AnalysisMode) (node : Nat)

@[simp] theorem free_noteIf (condition : Bool) (t : TypeRef) :
    freeAll settings (noteIf condition t) = [] := by
  cases condition <;> rfl

@[simp] theorem free_method (m : Option MethodInfo) : freeAll settings (method m) = [] := by
  cases m with
  | none => rfl
  | some m => exact free_noteIf ..

@[simp] theorem free_constant (c : Constant) : freeAll settings (constant settings c) = [] := by
  obtain ⟨value, ty⟩ := c
  cases value with
  | closure fields =>
    unfold constant
    dsimp only
    split
    · rw [freeAll_flatMap, List.flatMap_eq_nil_iff]
      intro field _
      cases field.value <;> rfl
    · rfl
  | _ => rfl

@[simp] theorem free_values (es : List Expr) :
    freeAll settings (values es) = es.flatMap (Node.free settings) := by
  rw [values, freeAll_map]
  rfl

@[simp] theorem free_body (e : Expr) (returns : Bool) : (body e returns).free settings = e.free settings :=
  rfl

@[simp] theorem free_enclosed (kind : ScopeKind) (e : Expr) (returns : Bool) :
    (enclosed kind e returns).free settings = e.free settings := by
  simp [enclosed, Move.free, unbound]

@[simp] theorem free_sequence (last : Position) (es : List Expr) :
    freeAll settings (sequence last es) = es.flatMap (Node.free settings) := by
  induction es with
  | nil => rfl
  | cons e es ih =>
    cases es with
    | nil => rfl
    | cons e' es =>
      show e.free settings ++ freeAll settings (sequence last (e' :: es)) = _
      rw [ih]
      rfl

@[simp] theorem free_block (locals : List Variable) (es : List Expr) (ty : TypeRef) (role : BlockRole) :
    (block node locals es ty role).free settings = unbound locals (es.flatMap (Node.free settings)) := by
  simp [block, Move.free]

theorem free_arguments (es : List Expr) (ps : List ParameterInfo) :
    freeAll settings (arguments es ps) = es.flatMap (Node.free settings) := by
  have hone (e : Expr) (m : PassingMode) : (argument e m).free settings = e.free settings := by
    unfold argument
    split
    next h => exact (Node.free_of_asParameter? settings h).symm
    next h => exact (Node.free_of_asParameter? settings h).symm
    · rfl
  induction es generalizing ps with
  | nil => cases ps <;> rfl
  | cons e es ih => cases ps <;> simp [arguments, hone, ih]

theorem free_branches (test ifTrue ifFalse : Expr) (returns : Bool) :
    freeAll settings (branches test ifTrue ifFalse returns) =
      [test, ifTrue, ifFalse].flatMap (Node.free settings) := by
  unfold branches
  split
  next h => simp [Move.free, Node.free_of_isEmpty settings h]
  · simp [Move.free]

theorem free_switch (subject : Expr) (cases : List (SwitchCase Expr)) (defaultBody : Option Expr)
    (returns : Bool) :
    freeAll settings (switch subject cases defaultBody returns) =
      (subject :: cases.flatMap (fun c => c.tests ++ [c.body]) ++ defaultBody.toList).flatMap
        (Node.free settings) := by
  unfold switch
  simp [Move.free, freeAll_flatMap, freeAll_map, List.flatMap_assoc]

theorem free_attempt (tried : Expr) (handlers : List (Handler Expr)) (cleanup fault : Option Expr)
    (returns : Bool) :
    freeAll settings (attempt tried handlers cleanup fault returns) =
      tried.free settings ++
        handlers.flatMap (fun h => unbound h.caught.toList
          (h.filter.toList.flatMap (Node.free settings) ++ h.body.free settings)) ++
        cleanup.toList.flatMap (Node.free settings) ++ fault.toList.flatMap (Node.free settings) := by
  unfold attempt handler
  simp [Move.free, freeAll_map]

theorem free_assignment (op : BinaryOp) (left right : Expr) (isStatement : Bool) :
    freeAll settings (assignment settings node op left right isStatement) =
      right.free settings ++ left.free settings := by
  unfold assignment
  cases h : left.asParameter? with
  | none => simp [Move.free]
  | some v =>
    have hleft := Node.free_of_asParameter? settings h
    dsimp only
    split <;> simp [Move.free, hleft]

theorem mem_free_value (f : Form Expr) (key : VariableKey) :
    key ∈ freeAll settings (value settings mode node f) ↔
      key ∈ (Node.mk node f : Expr).free settings := by
  have hvalues {es : List Expr} {f : Form Expr} (hes : f.children = es)
      (hf : (f.map (Node.free settings)).free settings = (f.map (Node.free settings)).children.flatten) :
      key ∈ freeAll settings (values es) ↔ key ∈ (Node.mk node f : Expr).free settings := by
    rw [free_values, Node.free_eq_children settings node hf, hes]
  cases f with
  | constant c =>
    rw [value, free_constant, Node.free_mk]
    rfl
  | parameter v =>
    rw [Node.free_mk]
    rfl
  | binary op left right ty m =>
    rw [Node.free_eq_children settings node rfl]
    unfold value
    dsimp only
    split
    · simp [free_assignment, Form.children, or_comm]
    · simp [Form.children]
  | unary op operand ty m =>
    rw [Node.free_eq_children settings node rfl]
    unfold value unary
    cases operand with
    | none => simp [Form.children]
    | some e =>
      dsimp only
      split
      next h => simp [Move.free, Form.children, Node.free_of_asParameter? settings h]
      · simp [Move.free, Form.children]
  | conditional test ifTrue ifFalse ty => exact hvalues rfl rfl
  | block locals es ty =>
    rw [Node.free_block]
    unfold value valueBlock
    dsimp only
    split <;> simp [Move.free]
  | lambda name parameters lambdaBody returnType ty =>
    have hnotes : freeAll settings (parameters.flatMap fun v =>
        noteIf (settings.writesParameterTypes parameters) v.ty) = [] := by
      rw [freeAll_flatMap, List.flatMap_eq_nil_iff]
      exact fun _ _ => free_noteIf ..
    rw [Node.free_mk]
    unfold value lambda
    rw [freeAll_cons, Move.free, freeAll_append, hnotes]
    split <;> simp [Move.free, Form.free, Form.map]
  | call receiver m args =>
    have hnotes (ts : List TypeRef) : freeAll settings (ts.map .note) = [] := by
      rw [freeAll_map, List.flatMap_eq_nil_iff]
      exact fun _ _ => rfl
    rw [Node.free_mk]
    unfold value call
    dsimp only [Form.map, Form.free]
    split
    · simp
    · split <;> cases receiver <;> simp [hnotes, free_arguments]
  | invoke target args ty => exact hvalues rfl rfl
  | member receiver info =>
    rw [Node.free_eq_children settings node rfl]
    cases receiver with
    | none => simp [value, Form.children]
    | some e =>
      cases h : e.isClosure with
      | true => simp [value, Form.children, h, Node.free_of_isClosure settings h]
      | false => simp [value, Form.children, h]
  | new creation =>
    rw [Node.free_eq_children settings node rfl]
    simp [value, free_arguments, Form.children]
  | newArray elementType expressions bounds =>
    rw [Node.free_eq_children settings node rfl]
    simp [value, Form.children]
  | memberInit creation bindings =>
    rw [Node.free_eq_children settings node rfl]
    simp [value, Move.free, Form.children]
  | listInit creation items =>
    rw [Node.free_eq_children settings node rfl]
    simp [value, Move.free, Form.children]
  | loop loopBody breakTarget continueTarget =>
    rw [Node.free_eq_children settings node rfl]
    simp [value, Form.children]
  | jump kind target result ty =>
    rw [Node.free_eq_children settings node rfl]
    unfold value
    dsimp only
    split <;> simp [Move.free, Form.children]
  | label target defaultValue => exact hvalues rfl rfl
  | switch subject cases defaultBody ty =>
    rw [Node.free_eq_children settings node rfl, value, free_switch]
    rfl
  | «try» tried handlers cleanup fault ty =>
    rw [Node.free_mk, value, free_attempt]
    simp [Form.map, Form.free, Handler.map, List.flatMap_def, Function.comp_def]
  | default ty =>
    rw [value, free_noteIf, Node.free_mk]
    rfl
  | index object indexer args ty => exact hvalues rfl rfl
  | typeTest expression operand exact =>
    rw [Node.free_eq_children settings node rfl]
    simp [value, Move.free, Form.children]
  | comment s =>
    rw [Node.free_mk]
    rfl
  | extension name ty display operands => exact hvalues rfl rfl

/-- **A visit of a node accesses the variables that are free in it, in whatever position.** -/
theorem mem_free_ofForm (f : Form Expr) (position : Position) (key : VariableKey) :
    key ∈ freeAll settings (ofForm settings mode node f position) ↔
      key ∈ (Node.mk node f : Expr).free settings := by
  have hvalue := mem_free_value settings mode node f key
  have hconditional {test ifTrue ifFalse : Expr} {ty : TypeRef} (returns : Bool) :
      key ∈ freeAll settings (branches test ifTrue ifFalse returns) ↔
        key ∈ (Node.mk node (.conditional test ifTrue ifFalse ty) : Expr).free settings := by
    rw [free_branches, Node.free_eq_children settings node rfl]
    rfl
  have hblock {locals : List Variable} {es : List Expr} {ty : TypeRef} (role : BlockRole) :
      key ∈ freeAll settings [block node locals es ty role] ↔
        key ∈ (Node.mk node (.block locals es ty) : Expr).free settings := by
    rw [Node.free_block, freeAll_cons, freeAll_nil, List.append_nil, free_block]
  cases position with
  | value => exact hvalue
  | statement =>
    cases f with
    | block locals es ty => exact hblock .discard
    | binary op left right ty m =>
      unfold ofForm statement
      unfold value at hvalue
      dsimp only at hvalue ⊢
      split
      next h =>
        rw [if_pos h, free_assignment] at hvalue
        rw [free_assignment]
        exact hvalue
      next h => exact hvalue
    | conditional test ifTrue ifFalse ty => exact hconditional false
    | _ => exact hvalue
  | returning =>
    cases f with
    | block locals es ty => exact hblock .return
    | conditional test ifTrue ifFalse ty =>
      unfold ofForm returning
      dsimp only
      split
      · exact hvalue
      · exact hconditional _
    | switch subject cases defaultBody ty =>
      rw [value, free_switch] at hvalue
      rw [ofForm, returning, free_switch]
      exact hvalue
    | «try» tried handlers cleanup fault ty =>
      rw [value, free_attempt] at hvalue
      rw [ofForm, returning, free_attempt]
      exact hvalue
    | _ => exact hvalue

end Moves

end Moves

end TreeScribe
