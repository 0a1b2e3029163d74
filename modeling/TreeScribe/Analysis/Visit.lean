import TreeScribe.Analysis.Basic
import TreeScribe.Tree.Position

/-! The visit of a tree that makes its analysis.

Nodes are visited in the order in which they are evaluated, each in the position in which it
will be written: the value of an assignment before its target, and every body in a scope of its
own. -/
namespace TreeScribe

/-- An analysis under way, with the scope of the node that is being visited. -/
structure Survey where
  analysis : Analysis
  current : Nat := ScopeTree.rootScope

abbrev Visit := StateM Survey

namespace Visit

/-- A child with what visiting it in some position does. -/
abbrev Child := Expr × (Position → Visit Unit)

def update (f : Analysis → Analysis) : Visit Unit :=
  modify fun s => { s with analysis := f s.analysis }

/-! ### Scopes -/

/-- Enters a new scope. -/
def enter (kind : ScopeKind) : Visit Nat := do
  let s ← get
  let (scope, scopes) := s.analysis.scopes.push s.current kind
  set { s with analysis := { s.analysis with scopes }, current := scope : Survey }
  return scope

/-- Goes back to the scope around one. -/
def leave (scope : Nat) : Visit Unit :=
  modify fun s =>
    { s with current := (s.analysis.scopes.parent? scope).getD ScopeTree.rootScope }

/-- Runs a visit in a scope of its own. -/
def within (kind : ScopeKind) (visit : Nat → Visit Unit) : Visit Unit := do
  let scope ← enter kind
  visit scope
  leave scope

def declare (scope : Nat) (v : Variable) (declaration : Declaration) : Visit Unit :=
  update fun a => { a with scopes := (a.scopes.declare scope v.key declaration).2 }

/-- Records an access from the current scope. -/
def access (v : Variable) (how : Access) : Visit Slot := do
  let s ← get
  let (slot, scopes) := s.analysis.scopes.access s.current v.key how
  set { s with analysis := { s.analysis with scopes } : Survey }
  return slot

def reference (v : Variable) (isAssigned : Bool) : Visit Unit := do
  let _ ← access v (.reference isAssigned)

/-! ### Constructs -/

section Constructs

variable (settings : Settings)

/-- Notes that the name of a type is written. -/
def noteType (t : TypeRef) : Visit Unit :=
  if settings.choice .qualifyTypes then pure ()
  else update fun a => { a with namespaces := a.namespaces.addType t }

def noteTypeIf (condition : Bool) (t : TypeRef) : Visit Unit :=
  if condition then noteType settings t else pure ()

/-- Notes the type of a method that is called in place of an operator. -/
def noteMethod (method : Option MethodInfo) : Visit Unit :=
  match method with
  | some m => noteTypeIf settings (!m.isOperator) m.declaring
  | none => pure ()

def values (children : List Child) : Visit Unit := children.forM (·.2 .value)

def body (child : Child) (returns : Bool) : Visit Unit := child.2 (Position.ofBody returns)

/-- Visits the expressions of a block; the last one in a position of its own. -/
def sequence (last : Position) : List Child → Visit Unit
  | [] => pure ()
  | [child] => child.2 last
  | child :: children => do
    child.2 .statement
    sequence last children

def constant (c : Constant) : Visit Unit :=
  match c.value with
  | .type t => noteType settings t
  | .enumMember _ => noteType settings c.ty
  | .closure fields =>
    if settings.choice .capturedValues then
      fields.forM fun field =>
        match field.value with
        | .enumMember _ => noteType settings field.ty
        | _ => pure ()
    else pure ()
  | _ => pure ()

def block (node : Nat) (locals : List Variable) (expressions : List Child) (ty : TypeRef)
    (role : BlockRole) : Visit Unit :=
  within .block fun scope => do
    update fun a => { a with blockScopes := (node, scope) :: a.blockScopes }
    locals.forM (declare scope · .inList)
    sequence (role.lastPosition ty) expressions

/-- Visits a block that becomes a method. -/
def extract (self : Expr) (locals : List Variable) (expressions : List Child)
    (ty : TypeRef) : Visit Unit :=
  within .extracted fun scope => do
    update fun a => { a with extracted := a.extracted ++ [⟨self, scope⟩] }
    block self.label locals expressions ty (BlockRole.ofBody (!ty.isVoid))

def assignment (node : Nat) (op : BinaryOp) (left right : Child) (isStatement : Bool) :
    Visit Unit := do
  right.2 .value
  noteTypeIf settings (op == .powerAssign) TypeRef.math
  match left.1.asParameter? with
  | some v =>
    if op == .assign then
      let slot ← access v (.assignment node isStatement)
      let a := (← get).analysis
      let joined := (a.scopes.info? slot).any (·.joined? == some node)
      update fun a =>
        { a with
          targets := (node, slot) :: a.targets
          typedJoins := if joined && settings.writesJoinType v.ty right.1 then slot :: a.typedJoins
            else a.typedJoins }
    else reference v true
  | none => left.2 .value

def unary (op : UnaryOp) (operand : Option Child) (ty : TypeRef) (method : Option MethodInfo) :
    Visit Unit := do
  noteTypeIf settings (op.isConversion && operand.any (·.1.ty != ty)) ty
  noteTypeIf settings (op == .typeAs) ty
  noteMethod settings method
  match operand with
  | some child =>
    match op.isAssignment, child.1.asParameter? with
    | true, some v => reference v true
    | _, _ => child.2 .value
  | none => pure ()

def branches (test ifTrue ifFalse : Child) (returns : Bool) : Visit Unit := do
  test.2 .value
  within .branch fun _ => body ifTrue returns
  if ifFalse.1.isEmpty then pure ()
  else within .branch fun _ => body ifFalse returns

def switch (value : Child) (cases : List (SwitchCase Child)) (defaultBody : Option Child)
    (returns : Bool) : Visit Unit := do
  value.2 .value
  cases.forM fun c => do
    values c.tests
    within .switchCase fun _ => body c.body returns
  defaultBody.forM fun c => within .switchCase fun _ => body c returns

def handler (h : Handler Child) (returns : Bool) : Visit Unit :=
  within .catchBody fun scope => do
    update fun a => { a with handlerScopes := (h.body.1.label, scope) :: a.handlerScopes }
    noteTypeIf settings (!h.test.isObject) h.test
    h.caught.forM (declare scope · .undeclared)
    h.filter.forM (·.2 .value)
    body h.body returns

def attempt (tried : Child) (handlers : List (Handler Child)) (cleanup fault : Option Child)
    (returns : Bool) : Visit Unit := do
  within .tryBody fun _ => body tried returns
  handlers.forM (handler settings · returns)
  cleanup.forM fun c => within .cleanupBody fun _ => c.2 .statement
  fault.forM fun c => within .catchBody fun _ => c.2 .statement

def lambda (node : Nat) (parameters : List Variable) (lambdaBody : Child)
    (returnType : TypeRef) : Visit Unit :=
  within .lambda fun scope => do
    update fun a => { a with lambdaScopes := (node, scope) :: a.lambdaScopes }
    parameters.forM fun v => do
      declare scope v .undeclared
      noteTypeIf settings (settings.writesParameterTypes parameters) v.ty
    if lambdaBody.1.rendersAsStatements then body lambdaBody (!returnType.isVoid)
    else lambdaBody.2 .value

/-- Visits an argument that is passed in some mode. -/
def argument (child : Child) (mode : PassingMode) : Visit Unit :=
  match mode, child.1.asParameter? with
  | .out, some v => do
    let slot ← access v (.output (settings.choice .inlineOutputs))
    update fun a => { a with targets := (child.1.label, slot) :: a.targets }
  | .ref, some v => reference v true
  | _, _ => child.2 .value

/-- Visits arguments, those beyond the parameters passed by value. -/
def arguments : List Child → List ParameterInfo → Visit Unit
  | [], _ => pure ()
  | child :: children, [] => do
    argument settings child .value
    arguments children []
  | child :: children, p :: ps => do
    argument settings child p.mode
    arguments children ps

def call (receiver : Option Child) (method : MethodInfo) (args : List Child) : Visit Unit :=
  if settings.writesConcat method then values args
  else do
    noteTypeIf settings (method.isStatic && !method.isOperator) method.declaring
    if settings.writesGenericArgs method then method.genericArgs.forM (noteType settings)
    else pure ()
    receiver.forM (·.2 .value)
    arguments settings args method.parameters

/-! ### Positions -/

/-- Visits a node as a value. -/
def value (node : Nat) (form : Form Child) : Visit Unit :=
  match form with
  | .constant c => constant settings c
  | .parameter v => reference v false
  | .binary op left right _ method =>
    if op.isAssignment then assignment settings node op left right false
    else do
      noteTypeIf settings (op == .power) TypeRef.math
      noteMethod settings method
      values [left, right]
  | .unary op operand ty method => unary settings op operand ty method
  | .conditional test ifTrue ifFalse _ => values [test, ifTrue, ifFalse]
  | .block locals expressions ty => do
    let a := (← get).analysis
    if a.mode == .source && !Form.isTransparent locals expressions then
      extract (.mk node (form.map (·.1))) locals expressions ty
    else block node locals expressions ty .value
  | .lambda _ parameters body returnType _ => lambda settings node parameters body returnType
  | .call receiver method args => call settings receiver method args
  | .invoke target args _ => values (target :: args)
  | .member receiver info => do
    noteTypeIf settings info.isStatic info.declaring
    receiver.forM fun c => if c.1.isClosure then pure () else c.2 .value
  | .new creation => do
    noteTypeIf settings (!creation.ty.isAnonymous) creation.ty
    arguments settings creation.arguments ((creation.constructor.map (·.parameters)).getD [])
  | .newArray elementType expressions bounds => do
    noteTypeIf settings (bounds || !settings.leavesElementType (expressions.map (·.1.ty)))
      elementType
    values expressions
  | .memberInit creation bindings => do
    noteType settings creation.ty
    values creation.arguments
    values (Binding.childrenAll bindings)
  | .listInit creation items => do
    noteType settings creation.ty
    values creation.arguments
    values (items.flatMap (·.arguments))
  | .loop loopBody _ _ => within .loopBody fun _ => loopBody.2 .statement
  | .jump kind target jumpValue _ => do
    if kind == .goto then update fun a => { a with jumpTargets := target :: a.jumpTargets }
    else pure ()
    jumpValue.forM (·.2 .value)
  | .label _ defaultValue => defaultValue.forM (·.2 .value)
  | .switch subject cases defaultBody _ => switch subject cases defaultBody false
  | .try tried handlers cleanup fault _ => attempt settings tried handlers cleanup fault false
  | .default ty => noteTypeIf settings (!ty.isVoid) ty
  | .index object _ args _ => values (object :: args)
  | .typeTest expression operand _ => do
    noteType settings operand
    expression.2 .value
  | .comment _ => pure ()
  | .extension _ _ _ operands => values operands

/-- Visits a node as a statement. -/
def statement (node : Nat) (form : Form Child) : Visit Unit :=
  match form with
  | .block locals expressions ty => block node locals expressions ty .discard
  | .binary op left right _ _ =>
    if op.isAssignment then assignment settings node op left right true
    else value settings node form
  | .conditional test ifTrue ifFalse _ => branches test ifTrue ifFalse false
  | _ => value settings node form

/-- Visits a node as the one that gives the value of a body. -/
def returning (node : Nat) (form : Form Child) : Visit Unit :=
  match form with
  | .block locals expressions ty => block node locals expressions ty .return
  | .conditional test ifTrue ifFalse ty =>
    if Node.isTernary ifTrue.1 ifFalse.1 ty then value settings node form
    else branches test ifTrue ifFalse (!ty.isVoid)
  | .switch subject cases defaultBody ty => switch subject cases defaultBody (!ty.isVoid)
  | .try tried handlers cleanup fault ty =>
    attempt settings tried handlers cleanup fault (!ty.isVoid)
  | _ => value settings node form

def form (node : Nat) (f : Form Child) : Position → Visit Unit
  | .value => value settings node f
  | .statement => statement settings node f
  | .returning => returning settings node f

/-- Visits a tree in some position. -/
def tree (e : Expr) : Position → Visit Unit := e.para (form settings)

/-- The types that declarations write, which are known at the end. -/
def declaredTypes (a : Analysis) : List TypeRef :=
  a.scopes.locals.filterMap fun (slot, v) =>
    let written :=
      match v.declaration with
      | .inList => v.isUsed
      | .joinedAssignment => settings.choice .explicitTypes || a.typedJoins.contains slot
      | .inlineOutput => settings.choice .explicitTypes
      | .undeclared => false
    if written then some v.key.ty else none

/-- Visits a tree and notes the types that its declarations write. -/
def run (mode : AnalysisMode) (e : Expr) (position : Position) : Analysis :=
  let visit : Visit Unit := do
    tree settings e position
    let a := (← get).analysis
    (declaredTypes settings a).forM (noteType settings)
  (Id.run (StateT.run visit ⟨{ mode }, ScopeTree.rootScope⟩)).2.analysis

end Constructs

end Visit

namespace Analysis

/-- The analysis of an expression on its own. -/
def ofExpression (settings : Settings) (e : Expr) : Analysis :=
  Visit.run settings .expression e (if e.rendersAsStatements then .statement else .value)

/-- The analysis of a method body. -/
def ofMethodBody (settings : Settings) (e : Expr) (returns : Bool) : Analysis :=
  Visit.run settings .source e (Position.ofBody returns)

end Analysis
end TreeScribe
