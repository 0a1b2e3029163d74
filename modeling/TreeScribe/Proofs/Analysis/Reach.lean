import TreeScribe.Proofs.Analysis.Meets
import TreeScribe.Proofs.Render.Names

/-! Every child that is written is visited, in whatever position its parent is (`Moves.reaches_ofForm`).

Two sorts of children are left out: a variable that is written to is only accessed, and a branch that is
not written is not visited either. Both are quiet: they name no type. -/
namespace TreeScribe

open Move Moves

/-! ### Children that need no visit -/

namespace Node

/-- A variable, or a default that is not written. -/
def isQuiet {ι : Type} (n : Node ι) : Bool := n.asParameter?.isSome || n.isEmpty

theorem isQuiet_of_asParameter? {ι : Type} {n : Node ι} {v : Variable} (h : n.asParameter? = some v) :
    n.isQuiet = true := by
  rw [isQuiet, h]
  rfl

theorem isQuiet_of_isEmpty {ι : Type} {n : Node ι} (h : n.isEmpty = true) : n.isQuiet = true := by
  rw [isQuiet, h, Bool.or_true]

variable {e : Expr}

theorem written_of_isQuiet (h : e.isQuiet = true) (settings : Settings) :
    e.form.written settings Node.isClosure = [] := by
  obtain ⟨node, form⟩ := e
  cases form <;> first | rfl | cases h

theorem spelled_of_isQuiet (h : e.isQuiet = true) (settings : Settings) :
    e.form.spelled settings = [] := by
  obtain ⟨node, form⟩ := e
  cases form with
  | parameter v => rfl
  | default ty => exact if_pos h
  | _ => cases h

end Node

/-! ### Children that are reached -/

namespace Moves

/-- The moves visit all of the children, except for quiet ones. -/
def Reaches (ms : List Move) (es : List Expr) : Prop :=
  ∀ e ∈ es, e.isQuiet = true ∨ e ∈ (visitsAll ms).map (·.1)

namespace Reaches

variable {ms first : List Move} {e : Expr} {es : List Expr}

theorem nil : Reaches ms [] := fun _ h => nomatch h

theorem of_visits (h : es ⊆ (visitsAll ms).map (·.1)) : Reaches ms es := fun _ he => .inr (h he)

theorem values (es : List Expr) : Reaches (Moves.values es) es :=
  of_visits (by rw [map_visits_values]; exact List.Subset.refl es)

theorem weaken (h : Reaches ms es) {ms' : List Move}
    (hvisits : (visitsAll ms).map (·.1) ⊆ (visitsAll ms').map (·.1)) : Reaches ms' es :=
  fun e he => (h e he).imp id fun hmem => hvisits hmem

theorem after (h : Reaches ms es) (first : List Move) : Reaches (first ++ ms) es := by
  refine h.weaken ?_
  rw [visitsAll_append, List.map_append]
  exact List.subset_append_right ..

theorem before (h : Reaches ms es) (rest : List Move) : Reaches (ms ++ rest) es := by
  refine h.weaken ?_
  rw [visitsAll_append, List.map_append]
  exact List.subset_append_left ..

theorem append (hfirst : Reaches ms es) {es' : List Expr} (h : Reaches ms es') : Reaches ms (es ++ es') :=
  fun e he => (List.mem_append.mp he).elim (hfirst e) (h e)

theorem cons (he : e.isQuiet = true ∨ e ∈ (visitsAll ms).map (·.1)) (h : Reaches ms es) :
    Reaches ms (e :: es) :=
  List.forall_mem_cons.mpr ⟨he, h⟩

theorem arguments (es : List Expr) (ps : List ParameterInfo) : Reaches (Moves.arguments es ps) es := by
  have hone (e : Expr) (m : PassingMode) : Reaches [Moves.argument e m] [e] := by
    unfold Moves.argument
    split
    next h => exact cons (.inl (Node.isQuiet_of_asParameter? h)) nil
    next h => exact cons (.inl (Node.isQuiet_of_asParameter? h)) nil
    · exact .values [e]
  induction es generalizing ps with
  | nil => exact nil
  | cons e es ih =>
    cases ps with
    | nil => exact ((hone e .value).before _).append ((ih []).after [_])
    | cons p ps => exact ((hone e p.mode).before _).append ((ih ps).after [_])

variable (settings : Settings) (node : Nat)

theorem assignment (op : BinaryOp) (left right : Expr) (isStatement : Bool) :
    Reaches (Moves.assignment settings node op left right isStatement) [left, right] := by
  refine cons ?_ (cons (.inr (List.mem_cons_self ..)) nil)
  cases h : left.asParameter? with
  | some v => exact .inl (Node.isQuiet_of_asParameter? h)
  | none =>
    right
    unfold Moves.assignment
    simp [h, Move.visits]

theorem unary (op : UnaryOp) (operand : Option Expr) (ty : TypeRef) (m : Option MethodInfo) :
    Reaches (Moves.unary op operand ty m) operand.toList := by
  unfold Moves.unary
  refine after ?_ _
  cases operand with
  | none => exact nil
  | some e =>
    dsimp only
    split
    next h => exact cons (.inl (Node.isQuiet_of_asParameter? h)) nil
    · exact .values [e]

theorem branches (test ifTrue ifFalse : Expr) (returns : Bool) :
    Reaches (Moves.branches test ifTrue ifFalse returns) [test, ifTrue, ifFalse] := by
  have hfirst : Reaches [.child test .value, Moves.enclosed .branch ifTrue returns] [test, ifTrue] :=
    of_visits (List.Subset.refl [test, ifTrue])
  refine (hfirst.before _).append (after ?_ _)
  split
  next h => exact cons (.inl (Node.isQuiet_of_isEmpty h)) nil
  · exact of_visits (List.Subset.refl [ifFalse])

theorem call (receiver : Option Expr) (m : MethodInfo) (args : List Expr) :
    Reaches (Moves.call settings receiver m args)
      ((Form.call receiver m args).written settings Node.isClosure) := by
  unfold Moves.call Form.written
  dsimp only
  split
  · exact .values args
  · rw [List.append_assoc]
    exact (after ((Reaches.values _).before _) _).append ((after (.arguments args m.parameters) _).after _)

variable (mode : AnalysisMode)

theorem value (form : Form Expr) :
    Reaches (Moves.value settings mode node form) (form.written settings Node.isClosure) := by
  cases form with
  | constant c => exact nil
  | parameter v => exact nil
  | binary op left right ty m =>
    unfold Moves.value
    dsimp only
    split
    · exact .assignment settings node op left right false
    · exact after (.values [left, right]) _
  | unary op operand ty m => exact .unary op operand ty m
  | conditional test ifTrue ifFalse ty => exact .values [test, ifTrue, ifFalse]
  | block locals es ty =>
    refine of_visits ?_
    rw [Moves.value, visitsAll_cons, visitsAll_nil, List.append_nil, visits_valueBlock, visits_sequence_map]
    exact List.Subset.refl es
  | lambda name parameters lambdaBody returnType ty =>
    refine of_visits ?_
    rw [Moves.value, visitsAll_cons, visitsAll_nil, List.append_nil, lambda, Move.visits, visitsAll_append,
      List.map_append]
    refine List.Subset.trans ?_ (List.subset_append_right ..)
    split <;> exact List.Subset.refl [lambdaBody]
  | call receiver m args => exact .call settings receiver m args
  | invoke target args ty => exact .values (target :: args)
  | member receiver info => exact after (.values _) _
  | new creation => exact after (.arguments _ _) _
  | newArray elementType expressions bounds => exact after (.values expressions) _
  | memberInit creation bindings =>
    exact ((after (.values _) [_]).before _).append (after (.values _) _)
  | listInit creation items =>
    exact ((after (.values _) [_]).before _).append (after (.values _) _)
  | loop loopBody breakTarget continueTarget => exact of_visits (List.Subset.refl [loopBody])
  | jump kind target result ty => exact after (.values result.toList) _
  | label target defaultValue => exact .values defaultValue.toList
  | switch subject cases defaultBody ty =>
    refine of_visits ?_
    rw [Moves.value, visits_switch_map]
    exact List.Subset.refl _
  | «try» tried handlers cleanup fault ty =>
    refine of_visits ?_
    rw [Moves.value, visits_attempt_map]
    exact List.Subset.refl _
  | default ty => exact nil
  | index object indexer args ty => exact .values (object :: args)
  | typeTest expression operand exact => exact after (.values [expression]) [_]
  | comment s => exact nil
  | extension name ty display operands => exact .values operands

end Reaches

/-- **Every child that is written is visited**, in every position. -/
theorem reaches_ofForm (settings : Settings) (mode : AnalysisMode) (node : Nat) (form : Form Expr)
    (position : Position) :
    Reaches (ofForm settings mode node form position) (form.written settings Node.isClosure) := by
  have hvalue := Reaches.value settings node mode form
  have hblock (locals : List Variable) (es : List Expr) (ty : TypeRef) (role : BlockRole) :
      Reaches [block node locals es ty role] es := by
    refine .of_visits ?_
    rw [visitsAll_cons, visitsAll_nil, List.append_nil, visits_block, visits_sequence_map]
    exact List.Subset.refl es
  cases position with
  | value => exact hvalue
  | statement =>
    cases form with
    | block locals es ty => exact hblock locals es ty .discard
    | binary op left right ty m =>
      unfold ofForm statement
      dsimp only
      split
      · exact .assignment settings node op left right true
      · exact hvalue
    | conditional test ifTrue ifFalse ty => exact .branches test ifTrue ifFalse false
    | _ => exact hvalue
  | returning =>
    cases form with
    | block locals es ty => exact hblock locals es ty .return
    | conditional test ifTrue ifFalse ty =>
      unfold ofForm returning
      dsimp only
      split
      · exact hvalue
      · exact .branches test ifTrue ifFalse _
    | switch subject cases defaultBody ty =>
      refine .of_visits ?_
      rw [ofForm, returning, visits_switch_map]
      exact List.Subset.refl _
    | «try» tried handlers cleanup fault ty =>
      refine .of_visits ?_
      rw [ofForm, returning, visits_attempt_map]
      exact List.Subset.refl _
    | _ => exact hvalue

end Moves

end TreeScribe
