import TreeScribe.Analysis.Visit
import TreeScribe.Proofs.Tree.Induction

/-! The moves of a visit.

`Moves` says, form by form and position by position, what the visit of a node does: which types it
notes, which variables it accesses, which scopes it opens, and which children it visits in which
positions. A visit makes these moves and no others (`Visit.after_tree`), so that what holds of every
move holds of every visit. -/
namespace TreeScribe

/-- What a scope is opened for. -/
inductive Owner where
  /-- A body of a statement. -/
  | body (kind : ScopeKind)
  | block (node : Nat)
  | lambda (node : Nat)
  | handler (node : Nat)
  /-- The method that a block becomes. -/
  | method (block : Expr)

namespace Owner

def kind : Owner → ScopeKind
  | .body kind => kind
  | .block _ => .block
  | .lambda _ => .lambda
  | .handler _ => .catchBody
  | .method _ => .extracted

/-- How the variables of the scope are declared at first. -/
def declaration : Owner → Declaration
  | .block _ => .inList
  | _ => .undeclared

/-- Notes which scope was opened. -/
def register (owner : Owner) (scope : Nat) (a : Analysis) : Analysis :=
  match owner with
  | .body _ => a
  | .block node => { a with blockScopes := (node, scope) :: a.blockScopes }
  | .lambda node => { a with lambdaScopes := (node, scope) :: a.lambdaScopes }
  | .handler node => { a with handlerScopes := (node, scope) :: a.handlerScopes }
  | .method self => { a with extracted := a.extracted ++ [⟨self, scope⟩] }

end Owner

/-- One thing that a visit does. -/
inductive Move where
  | child (e : Expr) (position : Position)
  | note (t : TypeRef)
  | jump (target : Target)
  | reference (v : Variable) (isAssigned : Bool)
  /-- An assignment to a variable; one that declares it may write its type. -/
  | assignment (node : Nat) (v : Variable) (isStatement isTyped : Bool)
  | output (node : Nat) (v : Variable)
  | scope (owner : Owner) (declared : List Variable) (moves : List Move)

namespace Visit

variable (settings : Settings)

/-- Records an assignment, which may become the declaration of its variable. -/
def assign (node : Nat) (v : Variable) (isStatement isTyped : Bool) : Visit Unit := do
  let slot ← access v (.assignment node isStatement)
  let a := (← get).analysis
  let joined := (a.scopes.info? slot).any (·.joined? == some node)
  update fun a =>
    { a with
      targets := (node, slot) :: a.targets
      typedJoins := if joined && isTyped then slot :: a.typedJoins else a.typedJoins }

/-- Records an output argument. -/
def pass (node : Nat) (v : Variable) : Visit Unit := do
  let slot ← access v (.output (settings.choice .inlineOutputs))
  update fun a => { a with targets := (node, slot) :: a.targets }

/-- Opens a scope with variables of its own. -/
def opened (owner : Owner) (declared : List Variable) (inner : Visit Unit) : Visit Unit :=
  within owner.kind fun scope => do
    update (owner.register scope)
    declared.forM (declare scope · owner.declaration)
    inner

mutual

def perform : Move → Visit Unit
  | .child e position => tree settings e position
  | .note t => noteType settings t
  | .jump target => update fun a => { a with jumpTargets := target :: a.jumpTargets }
  | .reference v isAssigned => reference v isAssigned
  | .assignment node v isStatement isTyped => assign node v isStatement isTyped
  | .output node v => pass settings node v
  | .scope owner declared moves => opened owner declared (performAll moves)

def performAll : List Move → Visit Unit
  | [] => pure ()
  | m :: ms => do
    perform m
    performAll ms

end

end Visit

/-! ### The moves of each form -/

namespace Moves

variable (settings : Settings) (mode : AnalysisMode) (node : Nat)

def noteIf (condition : Bool) (t : TypeRef) : List Move := if condition then [.note t] else []

def method : Option MethodInfo → List Move
  | some m => noteIf (!m.isOperator) m.declaring
  | none => []

def values (es : List Expr) : List Move := es.map (.child · .value)

def body (e : Expr) (returns : Bool) : Move := .child e (Position.ofBody returns)

/-- A body in a scope of its own. -/
def enclosed (kind : ScopeKind) (e : Expr) (returns : Bool) : Move :=
  .scope (.body kind) [] [body e returns]

def sequence (last : Position) : List Expr → List Move
  | [] => []
  | [e] => [.child e last]
  | e :: es => .child e .statement :: sequence last es

def constant (c : Constant) : List Move :=
  match c.value with
  | .type t => [.note t]
  | .enumMember _ => [.note c.ty]
  | .closure fields =>
    if settings.choice .capturedValues then
      fields.flatMap fun field =>
        match field.value with
        | .enumMember _ => [.note field.ty]
        | _ => []
    else []
  | _ => []

def block (locals : List Variable) (expressions : List Expr) (ty : TypeRef) (role : BlockRole) :
    Move :=
  .scope (.block node) locals (sequence (role.lastPosition ty) expressions)

/-- In a method body, a block that stands as a value and is not transparent becomes a method. -/
def valueBlock (locals : List Variable) (expressions : List Expr) (ty : TypeRef) : Move :=
  if mode == .source && !Form.isTransparent locals expressions then
    .scope (.method (.mk node (.block locals expressions ty))) []
      [block node locals expressions ty (BlockRole.ofBody (!ty.isVoid))]
  else block node locals expressions ty .value

/-- The value of an assignment comes before its target. -/
def assignment (op : BinaryOp) (left right : Expr) (isStatement : Bool) : List Move :=
  .child right .value :: noteIf (op == .powerAssign) TypeRef.math ++
    match left.asParameter? with
    | some v =>
      if op == .assign then
        [.assignment node v isStatement (settings.writesJoinType v.ty right)]
      else [.reference v true]
    | none => [.child left .value]

def unary (op : UnaryOp) (operand : Option Expr) (ty : TypeRef) (m : Option MethodInfo) :
    List Move :=
  noteIf (op.isConversion && operand.any (·.ty != ty)) ty ++ noteIf (op == .typeAs) ty ++ method m ++
    match operand with
    | some e =>
      match op.isAssignment, e.asParameter? with
      | true, some v => [.reference v true]
      | _, _ => [.child e .value]
    | none => []

def branches (test ifTrue ifFalse : Expr) (returns : Bool) : List Move :=
  [Move.child test .value, enclosed .branch ifTrue returns] ++
    if ifFalse.isEmpty then [] else [enclosed .branch ifFalse returns]

def switch (subject : Expr) (cases : List (SwitchCase Expr)) (defaultBody : Option Expr)
    (returns : Bool) : List Move :=
  .child subject .value ::
    (cases.flatMap fun c => values c.tests ++ [enclosed .switchCase c.body returns]) ++
    defaultBody.toList.map (enclosed .switchCase · returns)

def handler (returns : Bool) (h : Handler Expr) : Move :=
  .scope (.handler h.body.label) h.caught.toList
    (noteIf (!h.test.isObject) h.test ++ values h.filter.toList ++ [body h.body returns])

def attempt (tried : Expr) (handlers : List (Handler Expr)) (cleanup fault : Option Expr)
    (returns : Bool) : List Move :=
  enclosed .tryBody tried returns :: handlers.map (handler returns) ++
    cleanup.toList.map (enclosed .cleanupBody · false) ++
    fault.toList.map (enclosed .catchBody · false)

def lambda (parameters : List Variable) (lambdaBody : Expr) (returnType : TypeRef) : Move :=
  .scope (.lambda node) parameters
    ((parameters.flatMap fun v => noteIf (settings.writesParameterTypes parameters) v.ty) ++
      [if lambdaBody.rendersAsStatements then body lambdaBody (!returnType.isVoid)
        else .child lambdaBody .value])

def argument (e : Expr) (mode : PassingMode) : Move :=
  match mode, e.asParameter? with
  | .out, some v => .output e.label v
  | .ref, some v => .reference v true
  | _, _ => .child e .value

def arguments : List Expr → List ParameterInfo → List Move
  | [], _ => []
  | e :: es, [] => argument e .value :: arguments es []
  | e :: es, p :: ps => argument e p.mode :: arguments es ps

def call (receiver : Option Expr) (m : MethodInfo) (args : List Expr) : List Move :=
  if settings.writesConcat m then values args
  else
    noteIf (m.isStatic && !m.isOperator) m.declaring ++
      (if settings.writesGenericArgs m then m.genericArgs.map .note else []) ++
      values receiver.toList ++ arguments args m.parameters

def value (form : Form Expr) : List Move :=
  match form with
  | .constant c => constant settings c
  | .parameter v => [.reference v false]
  | .binary op left right _ m =>
    if op.isAssignment then assignment settings node op left right false
    else noteIf (op == .power) TypeRef.math ++ method m ++ values [left, right]
  | .unary op operand ty m => unary op operand ty m
  | .conditional test ifTrue ifFalse _ => values [test, ifTrue, ifFalse]
  | .block locals expressions ty => [valueBlock mode node locals expressions ty]
  | .lambda _ parameters lambdaBody returnType _ =>
    [lambda settings node parameters lambdaBody returnType]
  | .call receiver m args => call settings receiver m args
  | .invoke target args _ => values (target :: args)
  | .member receiver info =>
    noteIf info.isStatic info.declaring ++ values (receiver.toList.filter (!·.isClosure))
  | .new creation =>
    noteIf (!creation.ty.isAnonymous) creation.ty ++
      arguments creation.arguments ((creation.constructor.map (·.parameters)).getD [])
  | .newArray elementType expressions bounds =>
    noteIf (bounds || !settings.leavesElementType (expressions.map (·.ty))) elementType ++
      values expressions
  | .memberInit creation bindings =>
    .note creation.ty :: values creation.arguments ++ values (Binding.childrenAll bindings)
  | .listInit creation items =>
    .note creation.ty :: values creation.arguments ++ values (items.flatMap (·.arguments))
  | .loop loopBody _ _ => [enclosed .loopBody loopBody false]
  | .jump kind target result _ =>
    (if kind == .goto then [.jump target] else []) ++ values result.toList
  | .label _ defaultValue => values defaultValue.toList
  | .switch subject cases defaultBody _ => switch subject cases defaultBody false
  | .try tried handlers cleanup fault _ => attempt tried handlers cleanup fault false
  | .default ty => noteIf (!ty.isVoid) ty
  | .index object _ args _ => values (object :: args)
  | .typeTest expression operand _ => [.note operand, .child expression .value]
  | .comment _ => []
  | .extension _ _ _ operands => values operands

def statement (form : Form Expr) : List Move :=
  match form with
  | .block locals expressions ty => [block node locals expressions ty .discard]
  | .binary op left right _ _ =>
    if op.isAssignment then assignment settings node op left right true
    else value settings mode node form
  | .conditional test ifTrue ifFalse _ => branches test ifTrue ifFalse false
  | _ => value settings mode node form

def returning (form : Form Expr) : List Move :=
  match form with
  | .block locals expressions ty => [block node locals expressions ty .return]
  | .conditional test ifTrue ifFalse ty =>
    if Node.isTernary ifTrue ifFalse ty then value settings mode node form
    else branches test ifTrue ifFalse (!ty.isVoid)
  | .switch subject cases defaultBody ty => switch subject cases defaultBody (!ty.isVoid)
  | .try tried handlers cleanup fault ty =>
    attempt tried handlers cleanup fault (!ty.isVoid)
  | _ => value settings mode node form

/-- The moves of a visit of a node in some position. -/
def ofForm (form : Form Expr) : Position → List Move
  | .value => value settings mode node form
  | .statement => statement settings mode node form
  | .returning => returning settings mode node form

/-- The moves of a visit of a tree, as far as its children. -/
def ofExpr (e : Expr) (position : Position) : List Move :=
  ofForm settings mode e.label e.form position

end Moves

namespace Visit

variable (settings : Settings)

/-- A tree with what visiting it does. -/
abbrev child (e : Expr) : Child := (e, tree settings e)

theorem performAll_append (first moves : List Move) :
    performAll settings (first ++ moves) =
      (do performAll settings first; performAll settings moves) := by
  induction first with
  | nil => rfl
  | cons m first ih => simp only [List.cons_append, performAll, ih, bind_assoc]

@[simp] theorem performAll_one (m : Move) : performAll settings [m] = perform settings m := by
  simp [performAll]

theorem performAll_flatMap {α : Type} (f : α → List Move) (as : List α) :
    performAll settings (as.flatMap f) = as.forM fun a => performAll settings (f a) := by
  induction as with
  | nil => rfl
  | cons a as ih =>
    rw [List.flatMap_cons, performAll_append, ih]
    rfl

theorem performAll_map {α : Type} (f : α → Move) (as : List α) :
    performAll settings (as.map f) = as.forM fun a => perform settings (f a) := by
  induction as with
  | nil => rfl
  | cons a as ih =>
    rw [List.map_cons, performAll, ih]
    rfl

theorem performAll_toList {α : Type} (f : α → Move) (a : Option α) :
    performAll settings (a.toList.map f) = a.forM fun a => perform settings (f a) := by
  cases a with
  | none => rfl
  | some a => exact performAll_one settings (f a)

theorem noteTypeIf_eq (condition : Bool) (t : TypeRef) :
    noteTypeIf settings condition t = performAll settings (Moves.noteIf condition t) := by
  cases condition with
  | true => exact (performAll_one settings (.note t)).symm
  | false => rfl

theorem noteMethod_eq (m : Option MethodInfo) :
    noteMethod settings m = performAll settings (Moves.method m) := by
  cases m with
  | none => rfl
  | some m => exact noteTypeIf_eq ..

theorem forM_map {α β : Type} (g : α → β) (f : β → Visit Unit) (as : List α) :
    (as.map g).forM f = as.forM fun a => f (g a) := by
  induction as with
  | nil => rfl
  | cons a as ih =>
    show (do f (g a); (as.map g).forM f) = _
    rw [ih]
    rfl

theorem forM_optionMap {α β : Type} (g : α → β) (f : β → Visit Unit) (a : Option α) :
    (a.map g).forM f = a.forM fun a => f (g a) := by
  cases a <;> rfl

theorem values_eq (es : List Expr) :
    values (es.map (child settings)) = performAll settings (Moves.values es) := by
  rw [Moves.values, performAll_map, values, forM_map]
  rfl

theorem valueIfAny_eq (e : Option Expr) :
    ((e.map (child settings)).forM fun c => c.2 .value) =
      performAll settings (Moves.values e.toList) := by
  cases e with
  | none => rfl
  | some e => exact (performAll_one settings (.child e .value)).symm

theorem sequence_eq (last : Position) (es : List Expr) :
    sequence last (es.map (child settings)) = performAll settings (Moves.sequence last es) := by
  induction es with
  | nil => rfl
  | cons e es ih =>
    cases es with
    | nil => exact (performAll_one settings (.child e last)).symm
    | cons e' es =>
      show (do tree settings e .statement; sequence last ((e' :: es).map (child settings))) = _
      rw [ih]
      rfl

theorem constant_eq (c : Constant) :
    constant settings c = performAll settings (Moves.constant settings c) := by
  obtain ⟨value, ty⟩ := c
  cases value with
  | closure fields =>
    unfold constant Moves.constant
    dsimp only
    split
    · rw [performAll_flatMap]
      congr 1
      funext field
      cases field.value <;> simp [performAll, perform]
    · rfl
  | _ => simp [constant, Moves.constant, performAll, perform]

theorem block_eq (node : Nat) (locals : List Variable) (es : List Expr) (ty : TypeRef)
    (role : BlockRole) :
    block node locals (es.map (child settings)) ty role =
      perform settings (Moves.block node locals es ty role) := by
  unfold block
  rw [sequence_eq]
  rfl

theorem extract_eq (node : Nat) (locals : List Variable) (es : List Expr) (ty : TypeRef) :
    extract (.mk node (.block locals es ty)) locals (es.map (child settings)) ty =
      perform settings (.scope (.method (.mk node (.block locals es ty))) []
        [Moves.block node locals es ty (BlockRole.ofBody (!ty.isVoid))]) := by
  unfold extract
  rw [block_eq]
  show within .extracted _ = within .extracted _
  simp only [performAll_one]
  rfl

theorem assignment_eq (node : Nat) (op : BinaryOp) (left right : Expr) (isStatement : Bool) :
    assignment settings node op (child settings left) (child settings right) isStatement =
      performAll settings (Moves.assignment settings node op left right isStatement) := by
  unfold assignment Moves.assignment
  rw [noteTypeIf_eq, List.cons_append, performAll, performAll_append]
  dsimp only
  cases left.asParameter? with
  | none => simp only [performAll_one]; rfl
  | some v =>
    dsimp only
    cases op == .assign with
    | true => simp only [if_true, performAll_one]; rfl
    | false => simp only [Bool.false_eq_true, if_false, performAll_one]; rfl

theorem unary_eq (op : UnaryOp) (operand : Option Expr) (ty : TypeRef) (m : Option MethodInfo) :
    unary settings op (operand.map (child settings)) ty m =
      performAll settings (Moves.unary op operand ty m) := by
  unfold unary Moves.unary
  rw [noteTypeIf_eq, noteTypeIf_eq, noteMethod_eq, performAll_append, performAll_append,
    performAll_append]
  cases operand with
  | none => simp [performAll]
  | some e =>
    simp only [Option.map_some, Option.any_some, bind_assoc]
    cases op.isAssignment with
    | false => simp only [performAll_one]; rfl
    | true => cases e.asParameter? <;> simp only [performAll_one] <;> rfl

theorem enclosed_eq (kind : ScopeKind) (e : Expr) (returns : Bool) :
    (within kind fun _ => body (child settings e) returns) =
      perform settings (Moves.enclosed kind e returns) := by
  rw [Moves.enclosed, perform, performAll_one]
  rfl

theorem branches_eq (test ifTrue ifFalse : Expr) (returns : Bool) :
    branches (child settings test) (child settings ifTrue) (child settings ifFalse) returns =
      performAll settings (Moves.branches test ifTrue ifFalse returns) := by
  unfold branches Moves.branches
  rw [enclosed_eq, enclosed_eq, performAll_append]
  dsimp only
  cases ifFalse.isEmpty with
  | true => simp [performAll, perform]
  | false => simp [performAll, perform]

theorem switch_eq (subject : Expr) (cases : List (SwitchCase Expr)) (defaultBody : Option Expr)
    (returns : Bool) :
    switch (child settings subject) (cases.map (·.map (child settings)))
        (defaultBody.map (child settings)) returns =
      performAll settings (Moves.switch subject cases defaultBody returns) := by
  unfold switch Moves.switch
  rw [List.cons_append, performAll, performAll_append, performAll_flatMap, performAll_toList,
    forM_map, forM_optionMap]
  simp only [SwitchCase.map, values_eq, enclosed_eq, performAll_append, performAll_one]
  rfl

/-- Types can be noted after variables are declared as well as before. -/
theorem note_declare (condition : Bool) (t : TypeRef) (scope : Nat) (v : Variable)
    (declaration : Declaration) :
    (do noteTypeIf settings condition t; declare scope v declaration) =
      (do declare scope v declaration; noteTypeIf settings condition t) := by
  unfold noteTypeIf noteType
  split
  · split <;> rfl
  · rfl

theorem note_declareAll (condition : Bool) (t : TypeRef) (scope : Nat) (vs : List Variable)
    (declaration : Declaration) :
    (do noteTypeIf settings condition t; vs.forM (declare scope · declaration)) =
      (do vs.forM (declare scope · declaration); noteTypeIf settings condition t) := by
  induction vs with
  | nil => exact bind_pure _
  | cons v vs ih =>
    calc
      (do noteTypeIf settings condition t; (v :: vs).forM (declare scope · declaration))
        = (do (do noteTypeIf settings condition t; declare scope v declaration)
              vs.forM (declare scope · declaration)) := (bind_assoc ..).symm
      _ = (do declare scope v declaration
              (do noteTypeIf settings condition t; vs.forM (declare scope · declaration))) := by
        rw [note_declare, bind_assoc]
      _ = (do (v :: vs).forM (declare scope · declaration); noteTypeIf settings condition t) := by
        rw [ih]
        exact (bind_assoc ..).symm

theorem declareAndNote (condition : Bool) (scope : Nat) (vs : List Variable)
    (declaration : Declaration) :
    (vs.forM fun v => do declare scope v declaration; noteTypeIf settings condition v.ty) =
      (do vs.forM (declare scope · declaration)
          vs.forM fun v => noteTypeIf settings condition v.ty) := by
  induction vs with
  | nil => rfl
  | cons v vs ih =>
    calc
      _ = (do declare scope v declaration
              (do noteTypeIf settings condition v.ty
                  vs.forM (declare scope · declaration))
              vs.forM fun v => noteTypeIf settings condition v.ty) := by
        rw [bind_assoc, ← ih]
        exact bind_assoc ..
      _ = _ := by
        rw [note_declareAll, bind_assoc]
        exact (bind_assoc ..).symm

theorem handler_eq (returns : Bool) (h : Handler Expr) :
    handler settings (h.map (child settings)) returns =
      perform settings (Moves.handler returns h) := by
  have hcaught (scope : Nat) : h.caught.forM (declare scope · .undeclared) =
      h.caught.toList.forM (declare scope · .undeclared) := by
    cases h.caught <;> simp
  unfold handler Moves.handler
  rw [perform, performAll_append, performAll_append, performAll_one, ← noteTypeIf_eq,
    ← valueIfAny_eq]
  unfold opened
  refine congrArg (within .catchBody) (funext fun scope => ?_)
  refine congrArg (update _ >>= ·) (funext fun _ => ?_)
  simp only [Handler.map, hcaught]
  rw [← bind_assoc, note_declareAll]
  simp only [bind_assoc]
  rfl

theorem attempt_eq (tried : Expr) (handlers : List (Handler Expr)) (cleanup fault : Option Expr)
    (returns : Bool) :
    attempt settings (child settings tried) (handlers.map (·.map (child settings)))
        (cleanup.map (child settings)) (fault.map (child settings)) returns =
      performAll settings (Moves.attempt tried handlers cleanup fault returns) := by
  unfold attempt Moves.attempt
  have hbody (kind : ScopeKind) (e : Expr) :
      (within kind fun _ => (child settings e).2 .statement) =
        perform settings (Moves.enclosed kind e false) :=
    enclosed_eq settings kind e false
  rw [List.cons_append, List.cons_append, performAll, performAll_append, performAll_append,
    performAll_map, performAll_toList, performAll_toList, forM_map, forM_optionMap,
    forM_optionMap, enclosed_eq]
  simp only [handler_eq, hbody, bind_assoc]

theorem lambda_eq (node : Nat) (parameters : List Variable) (lambdaBody : Expr)
    (returnType : TypeRef) :
    lambda settings node parameters (child settings lambdaBody) returnType =
      perform settings (Moves.lambda settings node parameters lambdaBody returnType) := by
  unfold lambda Moves.lambda
  rw [perform, performAll_append, performAll_flatMap, performAll_one]
  unfold opened
  refine congrArg (within .lambda) (funext fun scope => ?_)
  refine congrArg (update _ >>= ·) (funext fun _ => ?_)
  rw [declareAndNote]
  simp only [noteTypeIf_eq, bind_assoc]
  cases lambdaBody.rendersAsStatements <;> rfl

theorem argument_eq (e : Expr) (mode : PassingMode) :
    argument settings (child settings e) mode = perform settings (Moves.argument e mode) := by
  unfold argument Moves.argument
  dsimp only
  cases mode <;> cases e.asParameter? <;> rfl

theorem arguments_eq (es : List Expr) (ps : List ParameterInfo) :
    arguments settings (es.map (child settings)) ps =
      performAll settings (Moves.arguments es ps) := by
  induction es generalizing ps with
  | nil => cases ps <;> rfl
  | cons e es ih =>
    cases ps with
    | nil =>
      rw [List.map_cons, arguments, argument_eq, ih]
      rfl
    | cons p ps =>
      rw [List.map_cons, arguments, argument_eq, ih]
      rfl

theorem call_eq (receiver : Option Expr) (m : MethodInfo) (args : List Expr) :
    call settings (receiver.map (child settings)) m (args.map (child settings)) =
      performAll settings (Moves.call settings receiver m args) := by
  unfold call Moves.call
  split
  · exact values_eq settings args
  · rw [noteTypeIf_eq, arguments_eq, valueIfAny_eq, performAll_append, performAll_append,
      performAll_append]
    split
    · rw [performAll_map]
      simp only [bind_assoc]
      rfl
    · simp [performAll]

theorem member_eq (receiver : Option Expr) (info : MemberInfo) :
    (do noteTypeIf settings info.isStatic info.declaring
        (receiver.map (child settings)).forM fun c =>
          if c.1.isClosure then pure () else c.2 .value) =
      performAll settings (Moves.noteIf info.isStatic info.declaring ++
        Moves.values (receiver.toList.filter (!·.isClosure))) := by
  rw [performAll_append, noteTypeIf_eq]
  cases receiver with
  | none => rfl
  | some e =>
    cases h : e.isClosure with
    | true => simp [h, Moves.values, performAll]
    | false => simp [h, Moves.values, perform]

/-- The survey that a visit leaves behind. -/
def after (x : Visit Unit) (s : Survey) : Survey := (StateT.run x s).2

section Form

variable (node : Nat)

/-- A visit of a block as a value asks for the mode first. -/
theorem after_valueBlock (locals : List Variable) (es : List Expr) (ty : TypeRef) (s : Survey) :
    (value settings node ((Form.block locals es ty).map (child settings))).after s =
      (perform settings (Moves.valueBlock s.analysis.mode node locals es ty)).after s := by
  have hself : ((Form.block locals es ty).map (child settings)).map (·.1) = .block locals es ty := by
    rw [Form.map_map]
    exact Form.map_id _
  have htransparent : Form.isTransparent locals (es.map (child settings)) =
      Form.isTransparent locals es := by
    simp [Form.isTransparent]
  show after (if s.analysis.mode == .source && !Form.isTransparent locals (es.map (child settings))
    then extract (.mk node (((Form.block locals es ty).map (child settings)).map (·.1))) locals
      (es.map (child settings)) ty
    else block node locals (es.map (child settings)) ty .value) s = _
  rw [hself, htransparent, extract_eq, block_eq, Moves.valueBlock]
  split <;> rfl

theorem after_value (f : Form Expr) (s : Survey) :
    (value settings node (f.map (child settings))).after s =
      (performAll settings (Moves.value settings s.analysis.mode node f)).after s := by
  have of_eq {x y : Visit Unit} (h : x = y) : x.after s = y.after s := by rw [h]
  cases f with
  | block locals es ty => rw [after_valueBlock, Moves.value, performAll_one]
  | constant c => exact of_eq (constant_eq settings c)
  | parameter v => exact of_eq (performAll_one settings (.reference v false)).symm
  | binary op left right ty m =>
    refine of_eq ?_
    unfold value Moves.value
    dsimp only [Form.map]
    split
    · exact assignment_eq settings node op left right false
    · rw [noteTypeIf_eq, noteMethod_eq, performAll_append, performAll_append, ← values_eq,
        bind_assoc]
      rfl
  | unary op operand ty m => exact of_eq (unary_eq settings op operand ty m)
  | conditional test ifTrue ifFalse ty => exact of_eq (values_eq settings [test, ifTrue, ifFalse])
  | lambda name parameters lambdaBody returnType ty =>
    exact of_eq ((lambda_eq settings node parameters lambdaBody returnType).trans
      (performAll_one settings _).symm)
  | call receiver m args => exact of_eq (call_eq settings receiver m args)
  | invoke target args ty => exact of_eq (values_eq settings (target :: args))
  | member receiver info => exact of_eq (member_eq settings receiver info)
  | new creation =>
    refine of_eq ?_
    unfold value Moves.value
    dsimp only [Form.map, Creation.map]
    rw [noteTypeIf_eq, arguments_eq, performAll_append]
  | newArray elementType expressions bounds =>
    refine of_eq ?_
    have htypes : (expressions.map (child settings)).map (·.1.ty) = expressions.map (·.ty) := by
      rw [List.map_map]
      rfl
    unfold value Moves.value
    dsimp only [Form.map]
    rw [noteTypeIf_eq, values_eq, performAll_append, htypes]
  | memberInit creation bindings =>
    refine of_eq ?_
    unfold value Moves.value
    dsimp only [Form.map, Creation.map]
    rw [Binding.childrenAll_map, values_eq, values_eq, List.cons_append, performAll,
      performAll_append]
    rfl
  | listInit creation items =>
    refine of_eq ?_
    have hitems : (items.map (·.map (child settings))).flatMap (·.arguments) =
        (items.flatMap (·.arguments)).map (child settings) := by
      rw [List.flatMap_map, List.map_flatMap]
      rfl
    unfold value Moves.value
    dsimp only [Form.map, Creation.map]
    rw [hitems, values_eq, values_eq, List.cons_append, performAll, performAll_append]
    rfl
  | loop loopBody breakTarget continueTarget =>
    exact of_eq ((enclosed_eq settings .loopBody loopBody false).trans
      (performAll_one settings _).symm)
  | jump kind target result ty =>
    refine of_eq ?_
    unfold value Moves.value
    dsimp only [Form.map]
    rw [performAll_append, ← valueIfAny_eq]
    split
    · rw [performAll_one]
      rfl
    · rfl
  | label target defaultValue => exact of_eq (valueIfAny_eq settings defaultValue)
  | switch subject cases defaultBody ty =>
    exact of_eq (switch_eq settings subject cases defaultBody false)
  | «try» tried handlers cleanup fault ty =>
    exact of_eq (attempt_eq settings tried handlers cleanup fault false)
  | default ty => exact of_eq (noteTypeIf_eq settings _ ty)
  | index object indexer args ty => exact of_eq (values_eq settings (object :: args))
  | typeTest expression operand exact =>
    refine of_eq ?_
    unfold Moves.value
    rw [performAll, performAll_one]
    rfl
  | comment s => rfl
  | extension name ty display operands => exact of_eq (values_eq settings operands)

theorem after_statement (f : Form Expr) (s : Survey) :
    (statement settings node (f.map (child settings))).after s =
      (performAll settings (Moves.statement settings s.analysis.mode node f)).after s := by
  have hvalue := after_value settings node f s
  cases f with
  | block locals es ty =>
    unfold Moves.statement
    rw [performAll_one, ← block_eq]
    rfl
  | binary op left right ty m =>
    unfold statement Moves.statement
    dsimp only [Form.map] at hvalue ⊢
    split
    · rw [assignment_eq]
    · exact hvalue
  | conditional test ifTrue ifFalse ty =>
    unfold statement Moves.statement
    dsimp only [Form.map]
    rw [branches_eq]
  | _ => exact hvalue

theorem after_returning (f : Form Expr) (s : Survey) :
    (returning settings node (f.map (child settings))).after s =
      (performAll settings (Moves.returning settings s.analysis.mode node f)).after s := by
  have hvalue := after_value settings node f s
  cases f with
  | block locals es ty =>
    unfold Moves.returning
    rw [performAll_one, ← block_eq]
    rfl
  | conditional test ifTrue ifFalse ty =>
    unfold returning Moves.returning
    dsimp only [Form.map] at hvalue ⊢
    split
    · exact hvalue
    · rw [branches_eq]
  | switch subject cases defaultBody ty =>
    unfold returning Moves.returning
    dsimp only [Form.map]
    rw [switch_eq]
  | «try» tried handlers cleanup fault ty =>
    unfold returning Moves.returning
    dsimp only [Form.map]
    rw [attempt_eq]
  | _ => exact hvalue

end Form

/-- **A visit of a tree makes the moves of its form.** -/
theorem after_tree (e : Expr) (position : Position) (s : Survey) :
    (tree settings e position).after s =
      (performAll settings (Moves.ofExpr settings s.analysis.mode e position)).after s := by
  obtain ⟨node, f⟩ := e
  rw [tree, Node.para_mk]
  cases position with
  | value => exact after_value settings node f s
  | statement => exact after_statement settings node f s
  | returning => exact after_returning settings node f s

end Visit
end TreeScribe
