import Mathlib.Data.List.Perm.Subperm
import TreeScribe.Proofs.Render.Arrangement
import TreeScribe.Proofs.Tree.Keys

/-! Where the pieces of a node come from.

Every piece of a node is made of one of its children, or says something about the node itself. No child
is written twice but the target of a checked or power assignment (`Arrangement.children_ofForm_subperm`), and
only few pieces do more than write a child or mention a variable (`Arrangement.special_ofForm`). -/
namespace TreeScribe

open scoped List

/-- The assignment writes its target on both sides. -/
def BinaryOp.repeatsTarget (op : BinaryOp) : Bool := op == .powerAssign || op.checkedOperator?.isSome

/-- What a node writes of its children at most. -/
def Form.parts {α : Type} : Form α → List α
  | .binary op left right _ _ => if op.repeatsTarget then [left, left, right] else [left, right]
  | form => form.children

/-- Where a jump may land: at a label, or after a loop. -/
def Form.landing? {α : Type} : Form α → Option Target
  | .label target _ => some target
  | .loop _ breakTarget _ => breakTarget
  | _ => none

/-- Loops, switches and lambdas. -/
def Form.encloses {α : Type} : Form α → Bool
  | .loop _ _ _ | .switch _ _ _ _ | .lambda _ _ _ _ _ => true
  | _ => false

theorem Form.parts_subset {α : Type} (form : Form α) : form.parts ⊆ form.children := by
  cases form with
  | binary op left right ty m =>
    intro c hc
    unfold parts at hc
    dsimp only at hc
    split at hc <;> simpa [children] using hc
  | _ => exact List.Subset.refl _

/-! ### Pieces that are children -/

def Piece.child? : Piece → Option Expr
  | .child _ e => some e
  | _ => none

/-- The piece writes a child or a variable. -/
def Piece.isPlain : Piece → Bool
  | .child _ _ | .mention _ _ => true
  | .output _ | .assignment _ _ | .note _ => false

def Step.pieces : Step → List Piece
  | .one p => [p]
  | .swapped p q => [p, q]

namespace Arrangement

/-- The children that pieces are made of. -/
def children (steps : List Step) : List Expr := (steps.flatMap Step.pieces).filterMap Piece.child?

@[simp] theorem children_nil : children [] = [] := rfl

@[simp] theorem children_value (e : Expr) (steps : List Step) :
    children (value e :: steps) = e :: children steps :=
  rfl

@[simp] theorem children_body (returns : Bool) (e : Expr) (steps : List Step) :
    children (body returns e :: steps) = e :: children steps :=
  rfl

@[simp] theorem children_one (mode : Mode) (e : Expr) (steps : List Step) :
    children (.one (.child mode e) :: steps) = e :: children steps :=
  rfl

@[simp] theorem children_note (n : Note) (steps : List Step) :
    children (note n :: steps) = children steps :=
  rfl

@[simp] theorem children_append (first steps : List Step) :
    children (first ++ steps) = children first ++ children steps := by
  rw [children, List.flatMap_append, List.filterMap_append]
  rfl

@[simp] theorem children_values (es : List Expr) : children (values es) = es := by
  induction es with
  | nil => rfl
  | cons e es ih =>
    show e :: children (values es) = e :: es
    rw [ih]

theorem children_flatMap {α : Type} (f : α → List Step) (as : List α) :
    children (as.flatMap f) = as.flatMap fun a => children (f a) := by
  induction as with
  | nil => rfl
  | cons a as ih => rw [List.flatMap_cons, children_append, ih, List.flatMap_cons]

theorem children_bodies (returns : Bool) (e : Option Expr) :
    children (e.toList.map (body returns)) = e.toList := by
  cases e <;> rfl

@[simp] theorem children_enclosed (node : Nat) (steps : List Step) :
    children (enclosed node steps) = children steps := by
  simp [enclosed]

@[simp] theorem children_landing (env : Env) (target : Option Target) :
    children (landing env target) = [] := by
  unfold landing
  cases target.filter env.analysis.isJumpTarget <;> rfl

theorem children_argument (e : Expr) (mode : PassingMode) : children (argument e mode) = [e] := by
  cases mode <;> rfl

theorem children_arguments (es : List Expr) (ps : List ParameterInfo) :
    children (arguments es ps) = es := by
  induction es generalizing ps with
  | nil => cases ps <;> rfl
  | cons e es ih =>
    cases ps with
    | nil => rw [arguments, children_append, children_argument, ih, List.singleton_append]
    | cons p ps =>
      rw [arguments]
      split
      next h =>
        -- an array that is passed element by element is the last argument
        have hlast : es = [] := by
          simp only [Bool.and_eq_true, List.isEmpty_iff] at h
          exact h.1.2
        rw [hlast]
        rfl
      · rw [children_append, children_argument, ih, List.singleton_append]

theorem children_access (m : MethodInfo) (args : List Expr) (parameters : List ParameterInfo) :
    children (access m args parameters) <+ args := by
  have hall : children (arguments args parameters) <+ args := by rw [children_arguments]
  unfold access
  split
  · exact hall
  · split
    · exact List.nil_sublist args
    · split
      · rw [children_values]
      · split
        next last _ hlast =>
          have hsplit : args.dropLast ++ [last] = args := by
            obtain ⟨lead, rfl⟩ := List.getLast?_eq_some_iff.mp hlast
            rw [List.dropLast_concat]
          rw [children_append]
          conv_rhs => rw [← hsplit]
          refine .append ?_ (List.Sublist.refl [last])
          split
          · rw [children_values]
          · exact List.nil_sublist _
        · exact hall

theorem children_call (env : Env) (receiver : Option Expr) (m : MethodInfo) (args : List Expr) :
    children (call env receiver m args) <+ receiver.toList ++ args := by
  unfold call
  split
  · rw [children_values]
    exact List.sublist_append_right ..
  · cases receiver with
    | some e => exact (children_access m args _).cons_cons e
    | none =>
      dsimp only
      cases m.isExtension with
      | false => exact children_access ..
      | true =>
        cases args with
        | nil => exact children_access ..
        | cons e args => exact (children_access m args _).cons_cons e

theorem children_statements (env : Env) (last : Position) (afterJump : Bool) (es : List Expr) :
    children (statements env last afterJump es) <+ es := by
  induction es generalizing afterJump with
  | nil => exact List.nil_sublist _
  | cons e es ih =>
    rw [statements]
    split
    · exact (ih afterJump).cons e
    · exact (ih _).cons_cons e

theorem children_valueBlock (env : Env) (node : Nat) (locals : List Variable)
    (expressions : List Expr) (ty : TypeRef) :
    children (valueBlock env node locals expressions ty) <+ expressions := by
  unfold valueBlock
  split
  · exact List.Sublist.refl _
  · split
    · exact List.nil_sublist _
    · exact children_statements ..

theorem children_ifStatement (test ifTrue ifFalse : Expr) (returns : Bool) :
    children (ifStatement test ifTrue ifFalse returns) <+ [test, ifTrue, ifFalse] := by
  have hother {steps : List Step} (h : children steps <+ [ifFalse]) :
      children (.swapped (.child (.inPosition .value) test) (.child (.body returns) ifTrue) ::
        steps) <+ [test, ifTrue, ifFalse] :=
    (h.cons_cons ifTrue).cons_cons test
  unfold ifStatement
  dsimp only
  split
  · exact hother (List.nil_sublist _)
  · split <;> exact hother (List.Sublist.refl _)

theorem children_switch (node : Nat) (subject : Expr) (cases : List (SwitchCase Expr))
    (defaultBody : Option Expr) (returns : Bool) :
    children (switch node subject cases defaultBody returns) =
      subject :: cases.flatMap (fun c => c.tests ++ [c.body]) ++ defaultBody.toList := by
  simp [switch, children_flatMap, children_bodies]

theorem children_handler (returns : Bool) (h : Handler Expr) :
    children (handler returns h) = h.filter.toList ++ [h.body] := by
  unfold handler
  split
  next e he => rw [he]; rfl
  next he => rw [he]; rfl

/-- The cleanup is written last. -/
theorem children_attempt (tried : Expr) (handlers : List (Handler Expr))
    (cleanup fault : Option Expr) (returns : Bool) :
    children (attempt tried handlers cleanup fault returns) <+~
      tried :: handlers.flatMap (fun h => h.filter.toList ++ [h.body]) ++ cleanup.toList ++
        fault.toList := by
  have hwritten : children (attempt tried handlers cleanup fault returns) =
      (tried :: handlers.flatMap (fun h => h.filter.toList ++ [h.body])) ++
        (fault.toList ++ cleanup.toList) := by
    simp only [attempt, children_append, children_body, children_flatMap, children_handler,
      children_bodies, List.append_assoc, List.cons_append]
  rw [hwritten, List.append_assoc]
  exact (List.perm_append_comm.append_left _).subperm

section Form

variable (env : Env) (node : Nat) (form : Form Expr)

theorem children_asValue_subperm : children (asValue env node form) <+~ form.parts := by
  have hvalues (es : List Expr) : children (values es) <+~ es := by rw [children_values]
  cases form with
  | constant c => exact List.nil_subperm
  | parameter v => exact List.nil_subperm
  | binary op left right ty method =>
    have hrepeats : op.isAssignment = false → op.repeatsTarget = false := by
      cases op <;> decide
    unfold asValue Form.parts
    dsimp only
    split
    · show children (values _) <+~ _
      exact hvalues _
    next hassignment =>
      rw [hrepeats (Bool.not_eq_true _ ▸ hassignment)]
      exact hvalues _
  | unary op operand ty method => exact hvalues _
  | conditional test ifTrue ifFalse ty =>
    unfold asValue
    dsimp only
    split
    · exact hvalues _
    · exact (children_ifStatement ..).subperm
  | block locals expressions ty => exact (children_valueBlock ..).subperm
  | lambda name parameters lambdaBody returnType ty =>
    unfold asValue
    rw [children_enclosed]
    split <;> exact List.Subperm.refl _
  | call receiver method args => exact (children_call ..).subperm
  | invoke target args ty => exact hvalues _
  | member receiver info =>
    unfold asValue
    rw [children_values]
    exact List.filter_sublist.subperm
  | new creation =>
    have hzip (names : List String) (es : List Expr) : (names.zip es).map (·.2) <+ es := by
      induction names generalizing es with
      | nil => exact List.nil_sublist es
      | cons name names ih =>
        cases es with
        | nil => exact List.nil_sublist []
        | cons e es => exact (ih es).cons_cons e
    unfold asValue
    dsimp only
    split
    · rw [children_values]
      exact (hzip ..).subperm
    · rw [children_arguments]
      exact List.Subperm.refl _
  | newArray elementType expressions bounds => exact hvalues _
  | memberInit creation bindings => exact hvalues _
  | listInit creation items => exact hvalues _
  | loop loopBody breakTarget continueTarget =>
    unfold asValue
    rw [children_append, children_enclosed, children_landing]
    exact List.Subperm.refl _
  | jump kind target result ty =>
    unfold asValue
    dsimp only
    split
    · exact hvalues _
    · exact List.nil_subperm
  | label target defaultValue =>
    unfold asValue
    rw [children_landing]
    exact List.nil_subperm
  | switch subject cases defaultBody ty =>
    rw [asValue, children_switch]
    exact List.Subperm.refl _
  | «try» tried handlers cleanup fault ty => exact children_attempt ..
  | default ty => exact List.nil_subperm
  | index object indexer args ty => exact hvalues _
  | typeTest expression tested exact => exact List.Subperm.refl _
  | comment s => exact List.nil_subperm
  | extension name ty display operands =>
    unfold asValue
    dsimp only
    split
    · exact List.nil_subperm
    · exact hvalues _

theorem children_asStatement_subperm : children (asStatement env node form) <+~ form.parts := by
  have hvalue := children_asValue_subperm env node form
  cases form with
  | block locals expressions ty => exact (children_statements ..).subperm
  | conditional test ifTrue ifFalse ty => exact (children_ifStatement ..).subperm
  | _ => exact hvalue

theorem children_label (target : Target) (defaultValue : Option Expr) (returns : Bool) :
    children (label env target defaultValue returns) <+ defaultValue.toList := by
  unfold label
  rw [children_append, children_landing, List.nil_append]
  split
  · rw [children_values]
  · exact List.nil_sublist _

theorem children_asReturning_subperm : children (asReturning env node form) <+~ form.parts := by
  have hvalue := children_asValue_subperm env node form
  cases form with
  | block locals expressions ty => exact (children_statements ..).subperm
  | conditional test ifTrue ifFalse ty =>
    unfold asReturning
    dsimp only
    split
    · exact hvalue
    · exact (children_ifStatement ..).subperm
  | switch subject cases defaultBody ty =>
    rw [asReturning, children_switch]
    exact List.Subperm.refl _
  | «try» tried handlers cleanup fault ty => exact children_attempt ..
  | label target defaultValue => exact (children_label ..).subperm
  | _ => exact hvalue

/-- **No child is written twice** but the target of an assignment that repeats it. -/
theorem children_ofForm_subperm (mode : Mode) : children (ofForm env node form mode) <+~ form.parts := by
  have hstatement := children_asStatement_subperm env node form
  have hreturning := children_asReturning_subperm env node form
  cases mode with
  | inPosition position =>
    cases position with
    | value => exact children_asValue_subperm env node form
    | statement => exact hstatement
    | returning => exact hreturning
  | body returns =>
    cases returns with
    | true => exact hreturning
    | false => exact hstatement
  | chained returns =>
    cases form with
    | conditional test ifTrue ifFalse ty => exact (children_ifStatement ..).subperm
    | _ => exact hstatement
  | landing returns =>
    cases form with
    | label target defaultValue => exact (children_label ..).subperm
    | _ => exact hreturning
  | elements =>
    cases form with
    | newArray elementType expressions bounds =>
      show children (values expressions) <+~ expressions
      rw [children_values]
    | _ => exact List.nil_subperm

/-- Only children of the node are made, whichever way it is asked for. -/
theorem children_ofForm (mode : Mode) : children (ofForm env node form mode) ⊆ form.children :=
  List.Subset.trans (children_ofForm_subperm env node form mode).subset form.parts_subset

theorem children_ofNode (mode : Mode) : children (ofNode env node form mode) ⊆ form.children := by
  have hended : children (ended env node form mode) = [] := by
    unfold ended
    split <;> rfl
  rw [ofNode, children_append, hended, List.append_nil]
  exact children_ofForm env node form mode

end Form

theorem mem_children_of_piece {steps : List Step} {mode : Mode} {e : Expr}
    (h : .child mode e ∈ steps.flatMap Step.pieces) : e ∈ children steps :=
  List.mem_filterMap.mpr ⟨_, h, rfl⟩

/-! ### Special pieces -/

/-- The pieces that may declare a variable, or note something. -/
def special (steps : List Step) : List Piece := (steps.flatMap Step.pieces).filter (!·.isPlain)

theorem mem_special {steps : List Step} {p : Piece} :
    p ∈ special steps ↔ p ∈ steps.flatMap Step.pieces ∧ p.isPlain = false := by
  rw [special, List.mem_filter, Bool.not_eq_true']

@[simp] theorem special_nil : special [] = [] := rfl

@[simp] theorem special_append (first steps : List Step) :
    special (first ++ steps) = special first ++ special steps := by
  rw [special, List.flatMap_append, List.filter_append]
  rfl

theorem special_cons (step : Step) (steps : List Step) :
    special (step :: steps) = special [step] ++ special steps :=
  special_append [step] steps

theorem special_eq_nil {steps : List Step} (h : ∀ step ∈ steps, special [step] = []) :
    special steps = [] := by
  induction steps with
  | nil => rfl
  | cons step steps ih =>
    rw [special_cons, h step (List.mem_cons_self ..), ih fun s hs => h s (List.mem_cons_of_mem _ hs)]
    rfl

@[simp] theorem special_values (es : List Expr) : special (values es) = [] :=
  special_eq_nil fun step hstep => by
    obtain ⟨e, -, rfl⟩ := List.mem_map.mp hstep
    rfl

@[simp] theorem special_bodies (returns : Bool) (es : List Expr) : special (es.map (body returns)) = [] :=
  special_eq_nil fun step hstep => by
    obtain ⟨e, -, rfl⟩ := List.mem_map.mp hstep
    rfl

theorem special_flatMap {α : Type} {f : α → List Step} (h : ∀ a, special (f a) = []) (as : List α) :
    special (as.flatMap f) = [] := by
  induction as with
  | nil => rfl
  | cons a as ih => rw [List.flatMap_cons, special_append, h, ih]; rfl

theorem special_landing (env : Env) (target : Option Target) :
    ∀ p ∈ special (landing env target), ∃ t, target = some t ∧ p = .note (.label t) := by
  intro p hp
  unfold landing at hp
  cases h : target.filter env.analysis.isJumpTarget with
  | none =>
    rw [h] at hp
    cases hp
  | some t =>
    rw [h] at hp
    exact ⟨t, (Option.filter_eq_some_iff.mp h).1, List.mem_singleton.mp hp⟩

/-- The marks of where a node opens and closes. -/
def edges (node : Nat) : List Piece := [.note (.opens node), .note (.closes node)]

@[simp] theorem special_enclosed (node : Nat) (steps : List Step) :
    special (enclosed node steps) = .note (.opens node) :: special steps ++ [Piece.note (.closes node)] := by
  show special ([note _] ++ steps ++ [note _]) = _
  rw [special_append, special_append]
  rfl

theorem special_statements (env : Env) (last : Position) (afterJump : Bool) (es : List Expr) :
    special (statements env last afterJump es) = [] := by
  induction es generalizing afterJump with
  | nil => rfl
  | cons e es ih =>
    rw [statements]
    split
    · exact ih afterJump
    · exact ih _

theorem special_ifStatement (test ifTrue ifFalse : Expr) (returns : Bool) :
    special (ifStatement test ifTrue ifFalse returns) = [] := by
  unfold ifStatement
  split
  · rfl
  · split <;> rfl

theorem special_switch (node : Nat) (subject : Expr) (cases : List (SwitchCase Expr))
    (defaultBody : Option Expr) (returns : Bool) :
    special (switch node subject cases defaultBody returns) = edges node := by
  unfold switch
  rw [special_cons, special_enclosed, special_append, special_bodies,
    special_flatMap fun c => by rw [special_append, special_values]; rfl]
  rfl

theorem special_attempt (tried : Expr) (handlers : List (Handler Expr)) (cleanup fault : Option Expr)
    (returns : Bool) : special (attempt tried handlers cleanup fault returns) = [] := by
  have hhandler (h : Handler Expr) : special (handler returns h) = [] := by
    unfold handler
    split <;> rfl
  unfold attempt
  rw [List.cons_append, List.cons_append, special_cons, special_append, special_append, special_bodies,
    special_bodies, special_flatMap hhandler]
  rfl

theorem special_label (env : Env) (target : Target) (defaultValue : Option Expr) (returns : Bool) :
    special (label env target defaultValue returns) = special (landing env (some target)) := by
  unfold label
  rw [special_append]
  split
  · rw [special_values, List.append_nil]
  · exact List.append_nil _

/-- A claim of an output argument is made for an argument that is passed to be written. -/
theorem special_arguments (es : List Expr) (ps : List ParameterInfo) : ∀ p ∈ special (arguments es ps),
    ∃ e ∈ es, p = .output e ∧ (e.asParameter?.isSome → e.label ∈ Node.outputs es ps) := by
  have hone (e : Expr) (m : PassingMode) : ∀ p ∈ special (argument e m), m = .out ∧ p = .output e := by
    intro p hp
    cases m with
    | out => exact ⟨rfl, List.mem_singleton.mp hp⟩
    | value => cases hp
    | ref => cases hp
  induction es generalizing ps with
  | nil => cases ps <;> exact fun p hp => absurd hp List.not_mem_nil
  | cons e es ih =>
    intro p hp
    cases ps with
    | nil =>
      rw [arguments, special_append] at hp
      rcases List.mem_append.mp hp with hp | hp
      · cases (hone e .value p hp).1
      · obtain ⟨x, hx, rfl, hmem⟩ := ih [] p hp
        refine ⟨x, List.mem_cons_of_mem _ hx, rfl, fun hv => ?_⟩
        have hnone := hmem hv
        rw [Node.outputs, List.zip_nil_right] at hnone
        cases hnone
    | cons q ps =>
      rw [arguments] at hp
      split at hp
      · cases hp
      · rw [special_append] at hp
        rw [Node.outputs_cons]
        rcases List.mem_append.mp hp with hp | hp
        · obtain ⟨hmode, rfl⟩ := hone e q.mode p hp
          refine ⟨e, List.mem_cons_self .., rfl, fun hv => List.mem_append_left _ ?_⟩
          simp [hmode, hv]
        · obtain ⟨x, hx, rfl, hmem⟩ := ih ps p hp
          exact ⟨x, List.mem_cons_of_mem _ hx, rfl, fun hv => List.mem_append_right _ (hmem hv)⟩

theorem special_access (m : MethodInfo) (args : List Expr) (ps : List ParameterInfo) :
    special (access m args ps) ⊆ special (arguments args ps) := by
  unfold access
  split
  · exact List.Subset.refl _
  · split
    · exact List.nil_subset _
    · split
      · rw [special_values]
        exact List.nil_subset _
      · split
        · rw [special_append]
          split
          · rw [special_values]
            exact List.nil_subset _
          · exact List.nil_subset _
        · exact List.Subset.refl _

theorem special_call (env : Env) (receiver : Option Expr) (m : MethodInfo) (args : List Expr) :
    ∀ p ∈ special (call env receiver m args), ∃ e ∈ args, p = .output e ∧
      (e.asParameter?.isSome → e.label ∈ Node.outputs args m.parameters) := by
  have haccess (es : List Expr) (ps : List ParameterInfo) (p : Piece) (hp : p ∈ special (access m es ps)) :=
    special_arguments es ps p (special_access m es ps hp)
  intro p hp
  unfold call at hp
  split at hp
  · rw [special_values] at hp
    cases hp
  · cases receiver with
    | some e =>
      simp only [Option.isNone_some, Bool.and_false] at hp
      exact haccess _ _ p hp
    | none =>
      cases hextension : m.isExtension with
      | false =>
        simp only [hextension, Bool.false_and] at hp
        exact haccess _ _ p hp
      | true =>
        simp only [hextension, Option.isNone_none, Bool.and_self, if_true] at hp
        cases args with
        | nil =>
          obtain ⟨e, he, -⟩ := haccess _ _ p hp
          cases he
        | cons e args =>
          obtain ⟨x, hx, rfl, hmem⟩ := haccess args _ p hp
          refine ⟨x, List.mem_cons_of_mem _ hx, rfl, fun hv => ?_⟩
          cases hps : m.parameters with
          | nil =>
            have hnone := hmem hv
            rw [hps, Node.outputs, List.drop_nil, List.zip_nil_right] at hnone
            cases hnone
          | cons q ps =>
            rw [Node.outputs_cons]
            refine List.mem_append_right _ ?_
            rw [hps] at hmem
            exact hmem hv

/-- A special piece declares the variable of the assignment that the node is, or that of an argument
that the node passes to be written, or it is an edge of a loop, a switch or a lambda, or the line of a
label. -/
def IsSpecialOf (node : Nat) (form : Form Expr) (p : Piece) : Prop :=
  (∃ left right ty m op, form = .binary op left right ty m ∧ p = .assignment node left) ∨
    (∃ e ∈ form.children, p = .output e ∧ (e.asParameter?.isSome → e.label ∈ form.keys node .target)) ∨
    form.encloses = true ∧ p ∈ edges node ∨ ∃ t, form.landing? = some t ∧ p = .note (.label t)

section Form

variable (env : Env) (node : Nat) (form : Form Expr)

theorem special_asValue : ∀ p ∈ special (asValue env node form), IsSpecialOf node form p := by
  have hnone {form : Form Expr} {steps : List Step} (h : special steps = []) :
      ∀ p ∈ special steps, IsSpecialOf node form p := by
    rw [h]
    exact fun p hp => nomatch hp
  cases form with
  | binary op left right ty m =>
    unfold asValue
    dsimp only
    split
    · intro p hp
      rw [assignment, special_cons, special_values, List.append_nil] at hp
      exact .inl ⟨left, right, ty, m, op, rfl, List.mem_singleton.mp hp⟩
    · exact hnone (special_values _)
  | conditional test ifTrue ifFalse ty =>
    unfold asValue
    dsimp only
    split
    · exact hnone (special_values _)
    · exact hnone (special_ifStatement ..)
  | block locals expressions ty =>
    refine hnone ?_
    show special (valueBlock env node locals expressions ty) = []
    unfold valueBlock
    split
    · rfl
    · split
      · rfl
      · exact special_statements ..
  | lambda name parameters lambdaBody returnType ty =>
    have hbody : special [if lambdaBody.rendersAsStatements then body (!returnType.isVoid) lambdaBody
        else value lambdaBody] = [] := by
      split <;> rfl
    intro p hp
    rw [asValue, special_enclosed, hbody] at hp
    exact .inr (.inr (.inl ⟨rfl, hp⟩))
  | call receiver m args =>
    intro p hp
    obtain ⟨e, he, rfl, hmem⟩ := special_call env receiver m args p hp
    exact .inr (.inl ⟨e, List.mem_append_right _ he, rfl, hmem⟩)
  | new creation =>
    unfold asValue
    dsimp only
    split
    · exact hnone (special_values _)
    · intro p hp
      obtain ⟨e, he, rfl, hmem⟩ := special_arguments _ _ p hp
      exact .inr (.inl ⟨e, he, rfl, hmem⟩)
  | loop loopBody breakTarget continueTarget =>
    intro p hp
    rw [asValue, special_append, special_enclosed, List.mem_append] at hp
    rcases hp with hp | hp
    · exact .inr (.inr (.inl ⟨rfl, hp⟩))
    · exact .inr (.inr (.inr (special_landing env breakTarget p hp)))
  | jump kind target result ty =>
    unfold asValue
    dsimp only
    split
    · exact hnone (special_values _)
    · exact hnone rfl
  | label target defaultValue =>
    exact fun p hp => .inr (.inr (.inr (special_landing env (some target) p hp)))
  | switch subject cases defaultBody ty =>
    intro p hp
    rw [asValue, special_switch] at hp
    exact .inr (.inr (.inl ⟨rfl, hp⟩))
  | «try» tried handlers cleanup fault ty => exact hnone (special_attempt ..)
  | extension name ty display operands =>
    unfold asValue
    dsimp only
    split
    · exact hnone rfl
    · exact hnone (special_values _)
  | _ => exact hnone (by first | rfl | exact special_values _)

theorem special_asStatement : ∀ p ∈ special (asStatement env node form), IsSpecialOf node form p := by
  have hvalue := special_asValue env node form
  cases form with
  | block locals expressions ty =>
    intro p hp
    rw [asStatement, block, special_statements] at hp
    cases hp
  | conditional test ifTrue ifFalse ty =>
    intro p hp
    rw [asStatement, special_ifStatement] at hp
    cases hp
  | _ => exact hvalue

theorem special_asReturning : ∀ p ∈ special (asReturning env node form), IsSpecialOf node form p := by
  have hvalue := special_asValue env node form
  have hnone {steps : List Step} (h : special steps = []) : ∀ p ∈ special steps, IsSpecialOf node form p := by
    rw [h]
    exact fun p hp => nomatch hp
  cases form with
  | block locals expressions ty => exact hnone (special_statements ..)
  | conditional test ifTrue ifFalse ty =>
    unfold asReturning
    dsimp only
    split
    · exact hvalue
    · exact hnone (special_ifStatement ..)
  | switch subject cases defaultBody ty =>
    intro p hp
    rw [asReturning, special_switch] at hp
    exact .inr (.inr (.inl ⟨rfl, hp⟩))
  | «try» tried handlers cleanup fault ty => exact hnone (special_attempt ..)
  | label target defaultValue =>
    intro p hp
    rw [asReturning, special_label] at hp
    exact .inr (.inr (.inr (special_landing env (some target) p hp)))
  | _ => exact hvalue

/-- Whichever way a node is asked for, its pieces claim nothing else. -/
theorem special_ofForm (mode : Mode) : ∀ p ∈ special (ofForm env node form mode), IsSpecialOf node form p := by
  have hstatement := special_asStatement env node form
  have hreturning := special_asReturning env node form
  have hnone {steps : List Step} (h : special steps = []) : ∀ p ∈ special steps, IsSpecialOf node form p := by
    rw [h]
    exact fun p hp => nomatch hp
  cases mode with
  | inPosition position =>
    cases position with
    | value => exact special_asValue env node form
    | statement => exact hstatement
    | returning => exact hreturning
  | body returns =>
    cases returns with
    | true => exact hreturning
    | false => exact hstatement
  | chained returns =>
    cases form with
    | conditional test ifTrue ifFalse ty => exact hnone (special_ifStatement ..)
    | _ => exact hstatement
  | landing returns =>
    cases form with
    | label target defaultValue =>
      intro p hp
      rw [ofForm, special_label] at hp
      exact .inr (.inr (.inr (special_landing env (some target) p hp)))
    | _ => exact hreturning
  | elements =>
    cases form with
    | newArray elementType expressions bounds => exact hnone (special_values _)
    | _ => exact hnone rfl

end Form

end Arrangement

end TreeScribe
