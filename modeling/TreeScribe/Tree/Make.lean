import TreeScribe.Tree.Shape

/-! Making trees in code.

Every new node gets the next number, so that a node which is used in several places is the same
node in all of them. Types are spelled out only where they do not follow from the children. -/
namespace TreeScribe

/-- Work that makes nodes; it keeps the next free number. -/
abbrev Making := StateM Nat

namespace Make

/-- A new node. -/
def node (form : Form Expr) : Making Expr := do
  let label ← get
  set (label + 1)
  return .mk label form

/-! ### Leaves -/

def constant (value : ConstantValue) (ty : TypeRef) : Making Expr := node (.constant ⟨value, ty⟩)

def parameter (v : Variable) : Making Expr := node (.parameter v)

def default (ty : TypeRef) : Making Expr := node (.default ty)

/-- Stands for nothing. -/
def empty : Making Expr := default .void

def comment (text : String) : Making Expr := node (.comment text)

def extension (name : String) (ty : TypeRef) (display : Option String) (operands : List Expr) :
    Making Expr :=
  node (.extension name ty display operands)

/-! ### Operators -/

/-- The type of an operation without a method. -/
def binaryType (op : BinaryOp) (left right : Expr) : TypeRef :=
  if op.isComparison || op.isLogical then .bool
  else
    match op with
    | .arrayIndex => left.ty.element.getD left.ty
    | .coalesce => right.ty
    | .power => .double
    | _ => left.ty

def binary (op : BinaryOp) (left right : Expr) : Making Expr :=
  node (.binary op left right (binaryType op left right) none)

def binaryWithMethod (op : BinaryOp) (left right : Expr) (m : MethodInfo) : Making Expr :=
  node (.binary op left right m.closedReturnType (some m))

def unaryTo (op : UnaryOp) (operand : Expr) (ty : TypeRef) : Making Expr :=
  node (.unary op (some operand) ty none)

def unary (op : UnaryOp) (operand : Expr) : Making Expr :=
  unaryTo op operand
    (match op with
    | .arrayLength => .int
    | .throw => .void
    | .not | .isTrue | .isFalse => if operand.ty.isBool then .bool else operand.ty
    | _ => operand.ty)

def quote (lambda : Expr) : Making Expr := unaryTo .quote lambda (.quotedOf lambda.ty)

/-- Throws the exception that is being handled. -/
def rethrow : Making Expr := node (.unary .throw none .void none)

def typeTest (e : Expr) (ty : TypeRef) (exact : Bool) : Making Expr := node (.typeTest e ty exact)

/-! ### Control flow -/

def condition (test ifTrue ifFalse : Expr) (ty : TypeRef) : Making Expr :=
  node (.conditional test ifTrue ifFalse ty)

/-- A conditional with the type of its first branch. -/
def ternary (test ifTrue ifFalse : Expr) : Making Expr := condition test ifTrue ifFalse ifTrue.ty

def ifThenElse (test ifTrue ifFalse : Expr) : Making Expr := condition test ifTrue ifFalse .void

def ifThen (test body : Expr) : Making Expr := do
  ifThenElse test body (← empty)

def blockOfType (ty : TypeRef) (locals : List Variable) (expressions : List Expr) :
    Making Expr :=
  node (.block locals expressions ty)

/-- A block with the type of its last expression. -/
def block (locals : List Variable) (expressions : List Expr) : Making Expr :=
  blockOfType ((expressions.getLast?.map (·.ty)).getD .void) locals expressions

def lambdaReturning (parameters : List Variable) (body : Expr) (returns : TypeRef) :
    Making Expr :=
  node (.lambda none parameters body returns (.delegateFor (parameters.map (·.ty)) returns))

def lambda (parameters : List Variable) (body : Expr) : Making Expr :=
  lambdaReturning parameters body body.ty

def loop (body : Expr) (breakTarget continueTarget : Option Target) : Making Expr :=
  node (.loop body breakTarget continueTarget)

def jump (kind : JumpKind) (target : Target) (value : Option Expr) : Making Expr :=
  node (.jump kind target value .void)

def label (target : Target) (defaultValue : Option Expr) : Making Expr :=
  node (.label target defaultValue)

/-- A switch with the type of its first case. -/
def switch (value : Expr) (cases : List (SwitchCase Expr)) (defaultBody : Option Expr) :
    Making Expr :=
  node (.switch value cases defaultBody ((cases.head?.map (·.body.ty)).getD .void))

/-- A guarded body, with its type. -/
def attempt (body : Expr) (handlers : List (Handler Expr)) (cleanup fault : Option Expr) :
    Making Expr :=
  node (.try body handlers cleanup fault body.ty)

/-! ### Calls, members and construction -/

def call (receiver : Option Expr) (m : MethodInfo) (arguments : List Expr) : Making Expr :=
  node (.call receiver m arguments)

/-- The type of an invocation: the result of a lambda, or the last argument of a delegate. -/
def invokeType (target : Expr) : TypeRef :=
  match target.form with
  | .lambda _ _ _ returns _ => returns
  | _ => target.ty.args.getLast?.getD .void

def invoke (target : Expr) (arguments : List Expr) : Making Expr :=
  node (.invoke target arguments (invokeType target))

def member (receiver : Option Expr) (info : MemberInfo) : Making Expr :=
  node (.member receiver info)

def index (object : Expr) (indexer : Option MemberInfo) (arguments : List Expr) (ty : TypeRef) :
    Making Expr :=
  node (.index object indexer arguments ty)

def new (creation : Creation Expr) : Making Expr := node (.new creation)

/-- An object of an anonymous type with these properties. -/
def newAnonymous (properties : List (String × Expr)) : Making Expr :=
  new { ty := .anonymous (properties.map (·.2.ty)), arguments := properties.map (·.2)
        members := properties.map (·.1) }

def newArray (elementType : TypeRef) (expressions : List Expr) (bounds : Bool) : Making Expr :=
  node (.newArray elementType expressions bounds)

def memberInit (creation : Creation Expr) (bindings : List (Binding Expr)) : Making Expr :=
  node (.memberInit creation bindings)

def listInit (creation : Creation Expr) (items : List (ElementInit Expr)) : Making Expr :=
  node (.listInit creation items)

end Make
end TreeScribe
