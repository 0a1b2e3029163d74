import TreeScribe.Tree.Node

/-! What a node is: its kind, its type, and whether it can only be written as statements. -/
namespace TreeScribe

variable {α ι : Type}

namespace Form

def kind : Form α → NodeKind
  | .constant _ => .constant
  | .parameter _ => .parameter
  | .binary op _ _ _ _ => .binary op
  | .unary op _ _ _ => .unary op
  | .conditional _ _ _ _ => .conditional
  | .block _ _ _ => .block
  | .lambda _ _ _ _ _ => .lambda
  | .call _ _ _ => .call
  | .invoke _ _ _ => .invoke
  | .member _ _ => .memberAccess
  | .new _ => .new
  | .newArray _ _ bounds => if bounds then .newArrayBounds else .newArrayInit
  | .memberInit _ _ => .memberInit
  | .listInit _ _ => .listInit
  | .loop _ _ _ => .loop
  | .jump _ _ _ _ => .goto
  | .label _ _ => .label
  | .switch _ _ _ _ => .switch
  | .try _ _ _ _ _ => .try
  | .default _ => .default
  | .index _ _ _ _ => .index
  | .typeTest _ _ exact => if exact then .typeEqual else .typeIs
  | .comment _ => .comment
  | .extension _ _ _ _ => .extension

/-- The rank of a new array: the number of bounds, or one. Ranks are bytes. -/
def arrayRank (expressions : List α) (bounds : Bool) : Nat :=
  if bounds then max expressions.length 1 % 256 else 1

/-- The type of the value that a node gives. -/
def ty : Form α → TypeRef
  | .constant c => c.ty
  | .parameter v => v.ty
  | .binary _ _ _ ty _ => ty
  | .unary _ _ ty _ => ty
  | .conditional _ _ _ ty => ty
  | .block _ _ ty => ty
  | .lambda _ _ _ _ ty => ty
  | .call _ method _ => method.closedReturnType
  | .invoke _ _ ty => ty
  | .member _ info => info.memberType
  | .new creation => creation.ty
  | .newArray elementType expressions bounds =>
    elementType.arrayOfRank (arrayRank expressions bounds)
  | .memberInit creation _ => creation.ty
  | .listInit creation _ => creation.ty
  | .loop _ breakTarget _ => (breakTarget.map (·.ty)).getD .void
  | .jump _ _ _ ty => ty
  | .label target _ => target.ty
  | .switch _ _ _ ty => ty
  | .try _ _ _ _ ty => ty
  | .default ty => ty
  | .index _ _ _ ty => ty
  | .typeTest _ _ _ => .bool
  | .comment _ => .void
  | .extension _ ty _ _ => ty

/-- A block without variables that holds one expression is written as that expression. -/
def isTransparent (locals : List Variable) (expressions : List α) : Bool :=
  locals.isEmpty && expressions.length == 1

/-- Whether a node can only be written as statements, given the same of its children. -/
def isStatement : Form Bool → Bool
  | .block locals expressions _ =>
    match expressions with
    | [only] => if locals.isEmpty then only else true
    | _ => true
  | .conditional _ ifTrue ifFalse ty => ty.isVoid || ifTrue || ifFalse
  | .loop _ _ _ | .switch _ _ _ _ | .try _ _ _ _ _ | .jump _ _ _ _ | .label _ _ | .comment _ =>
    true
  | _ => false

end Form

namespace Node

def kind (n : Node ι) : NodeKind := n.form.kind

def ty (n : Node ι) : TypeRef := n.form.ty

def asParameter? (n : Node ι) : Option Variable :=
  match n.form with
  | .parameter v => some v
  | _ => none

/-- A default of the void type, which stands for nothing. -/
def isEmpty (n : Node ι) : Bool :=
  match n.form with
  | .default ty => ty.isVoid
  | _ => false

def isComment (n : Node ι) : Bool :=
  match n.form with
  | .comment _ => true
  | _ => false

def isLambda (n : Node ι) : Bool :=
  match n.form with
  | .lambda _ _ _ _ _ => true
  | _ => false

def isBlock (n : Node ι) : Bool :=
  match n.form with
  | .block _ _ _ => true
  | _ => false

/-- Can only be written as statements. -/
def rendersAsStatements (n : Node ι) : Bool := n.fold fun _ f => f.isStatement

/-- A conditional with a value whose branches can be written as `a ? b : c`. -/
def isTernary (ifTrue ifFalse : Node ι) (ty : TypeRef) : Bool :=
  !ty.isVoid && !ifTrue.rendersAsStatements && !ifFalse.rendersAsStatements

/-- A constant that holds captured variables. -/
def isClosure (n : Node ι) : Bool :=
  match n.form with
  | .constant c => c.value.isClosure
  | _ => false

/-! ### Binding level -/

/-- Calls an ordinary method in place of an operator. -/
def callsMethod (method : Option MethodInfo) : Bool :=
  match method with
  | some m => !m.isOperator
  | none => false

/-- Joins its arguments into one string. -/
def isConcat (m : MethodInfo) : Bool :=
  m.isStatic && m.name == "Concat" && m.declaring.isString

/-- The level of a unary operator, given the operand with its own level. -/
def unaryLevel (op : UnaryOp) (operand : Option (Node ι × Level)) (ty : TypeRef)
    (method : Option MethodInfo) : Level :=
  match op with
  | .postIncrementAssign | .postDecrementAssign | .arrayLength => Level.primary
  | .throw | .quote => Level.lambda
  | .typeAs => Level.relational
  | .isTrue => (operand.map (·.2)).getD Level.primary
  | .convert | .convertChecked | .unbox =>
    match operand with
    | some (n, level) => if n.ty = ty then level else Level.unary
    | none => Level.unary
  | _ => if callsMethod method then Level.primary else Level.unary

/-- How tightly a node binds as it is written. -/
def level (n : Node ι) : Level :=
  n.para fun _ f =>
    match f with
    | .binary op _ _ _ method =>
      if op.isChecked && !op.isAssignment then Level.primary
      else if callsMethod method then Level.primary
      else op.level
    | .unary op operand ty method => unaryLevel op operand ty method
    | .conditional _ _ _ _ => Level.conditional
    | .lambda _ _ _ _ _ => Level.lambda
    | .typeTest _ _ exact => if exact then Level.equality else Level.relational
    | .constant c => if c.value.isNegative then Level.unary else Level.primary
    | .call _ method _ => if isConcat method then Level.additive else Level.primary
    | _ => Level.primary

end Node
end TreeScribe
