/-! Operators: their names, their classes, and how tightly they bind.

Names are in Pascal case; the stored form of a tree uses the same names in snake case. -/
namespace TreeScribe

/-- A Pascal case name in snake case. -/
def snakeCase (name : String) : String :=
  let step (c : Char) : List Char := if c.isUpper then ['_', c.toLower] else [c]
  match name.toList with
  | [] => ""
  | c :: rest => String.ofList (c.toLower :: rest.flatMap step)

inductive BinaryOp where
  | add | addChecked | subtract | subtractChecked | multiply | multiplyChecked
  | divide | modulo | power
  | and | or | exclusiveOr | andAlso | orElse
  | equal | notEqual | lessThan | lessThanOrEqual | greaterThan | greaterThanOrEqual
  | coalesce | leftShift | rightShift | arrayIndex
  | assign | addAssign | addAssignChecked | subtractAssign | subtractAssignChecked
  | multiplyAssign | multiplyAssignChecked | divideAssign | moduloAssign | powerAssign
  | andAssign | orAssign | exclusiveOrAssign | leftShiftAssign | rightShiftAssign
deriving DecidableEq, Repr, Inhabited

namespace BinaryOp

def all : List BinaryOp :=
  [.add, .addChecked, .subtract, .subtractChecked, .multiply, .multiplyChecked, .divide, .modulo,
    .power, .and, .or, .exclusiveOr, .andAlso, .orElse, .equal, .notEqual, .lessThan,
    .lessThanOrEqual, .greaterThan, .greaterThanOrEqual, .coalesce, .leftShift, .rightShift,
    .arrayIndex, .assign, .addAssign, .addAssignChecked, .subtractAssign, .subtractAssignChecked,
    .multiplyAssign, .multiplyAssignChecked, .divideAssign, .moduloAssign, .powerAssign,
    .andAssign, .orAssign, .exclusiveOrAssign, .leftShiftAssign, .rightShiftAssign]

theorem mem_all (op : BinaryOp) : op ∈ all := by cases op <;> decide

def name : BinaryOp → String
  | .add => "Add"
  | .addChecked => "AddChecked"
  | .subtract => "Subtract"
  | .subtractChecked => "SubtractChecked"
  | .multiply => "Multiply"
  | .multiplyChecked => "MultiplyChecked"
  | .divide => "Divide"
  | .modulo => "Modulo"
  | .power => "Power"
  | .and => "And"
  | .or => "Or"
  | .exclusiveOr => "ExclusiveOr"
  | .andAlso => "AndAlso"
  | .orElse => "OrElse"
  | .equal => "Equal"
  | .notEqual => "NotEqual"
  | .lessThan => "LessThan"
  | .lessThanOrEqual => "LessThanOrEqual"
  | .greaterThan => "GreaterThan"
  | .greaterThanOrEqual => "GreaterThanOrEqual"
  | .coalesce => "Coalesce"
  | .leftShift => "LeftShift"
  | .rightShift => "RightShift"
  | .arrayIndex => "ArrayIndex"
  | .assign => "Assign"
  | .addAssign => "AddAssign"
  | .addAssignChecked => "AddAssignChecked"
  | .subtractAssign => "SubtractAssign"
  | .subtractAssignChecked => "SubtractAssignChecked"
  | .multiplyAssign => "MultiplyAssign"
  | .multiplyAssignChecked => "MultiplyAssignChecked"
  | .divideAssign => "DivideAssign"
  | .moduloAssign => "ModuloAssign"
  | .powerAssign => "PowerAssign"
  | .andAssign => "AndAssign"
  | .orAssign => "OrAssign"
  | .exclusiveOrAssign => "ExclusiveOrAssign"
  | .leftShiftAssign => "LeftShiftAssign"
  | .rightShiftAssign => "RightShiftAssign"

/-- Any assignment, plain or compound. -/
def isAssignment : BinaryOp → Bool
  | .assign | .addAssign | .addAssignChecked | .subtractAssign | .subtractAssignChecked
  | .multiplyAssign | .multiplyAssignChecked | .divideAssign | .moduloAssign | .powerAssign
  | .andAssign | .orAssign | .exclusiveOrAssign | .leftShiftAssign | .rightShiftAssign => true
  | _ => false

/-- Gives a boolean whatever the operands are. -/
def isComparison : BinaryOp → Bool
  | .equal | .notEqual | .lessThan | .lessThanOrEqual | .greaterThan | .greaterThanOrEqual => true
  | _ => false

/-- Checks for overflow. -/
def isChecked : BinaryOp → Bool
  | .addChecked | .subtractChecked | .multiplyChecked | .addAssignChecked
  | .subtractAssignChecked | .multiplyAssignChecked => true
  | _ => false

/-- `&&` and `||`. -/
def isLogical : BinaryOp → Bool
  | .andAlso | .orElse => true
  | _ => false

/-- The checked operator that a checked compound assignment applies. -/
def checkedOperator? : BinaryOp → Option BinaryOp
  | .addAssignChecked => some .addChecked
  | .subtractAssignChecked => some .subtractChecked
  | .multiplyAssignChecked => some .multiplyChecked
  | _ => none

/-- The sign between the operands; empty for what is not written with one. -/
def symbol : BinaryOp → String
  | .add | .addChecked => "+"
  | .subtract | .subtractChecked => "-"
  | .multiply | .multiplyChecked => "*"
  | .divide => "/"
  | .modulo => "%"
  | .and => "&"
  | .or => "|"
  | .exclusiveOr => "^"
  | .andAlso => "&&"
  | .orElse => "||"
  | .equal => "=="
  | .notEqual => "!="
  | .lessThan => "<"
  | .lessThanOrEqual => "<="
  | .greaterThan => ">"
  | .greaterThanOrEqual => ">="
  | .coalesce => "??"
  | .leftShift => "<<"
  | .rightShift => ">>"
  | .assign => "="
  | .addAssign | .addAssignChecked => "+="
  | .subtractAssign | .subtractAssignChecked => "-="
  | .multiplyAssign | .multiplyAssignChecked => "*="
  | .divideAssign => "/="
  | .moduloAssign => "%="
  | .andAssign => "&="
  | .orAssign => "|="
  | .exclusiveOrAssign => "^="
  | .leftShiftAssign => "<<="
  | .rightShiftAssign => ">>="
  | .power | .powerAssign | .arrayIndex => ""

end BinaryOp

/-! ### Binding levels -/

/-- How tightly an operator binds; a higher level binds tighter. -/
abbrev Level := Nat

namespace Level

def lambda : Level := 0
def conditional : Level := 1
def coalesce : Level := 2
def orElse : Level := 3
def andAlso : Level := 4
def or : Level := 5
def xor : Level := 6
def and : Level := 7
def equality : Level := 8
def relational : Level := 9
def shift : Level := 10
def additive : Level := 11
def multiplicative : Level := 12
def unary : Level := 13
def primary : Level := 14

end Level

def BinaryOp.level : BinaryOp → Level
  | .multiply | .multiplyChecked | .divide | .modulo => Level.multiplicative
  | .add | .addChecked | .subtract | .subtractChecked => Level.additive
  | .leftShift | .rightShift => Level.shift
  | .lessThan | .lessThanOrEqual | .greaterThan | .greaterThanOrEqual => Level.relational
  | .equal | .notEqual => Level.equality
  | .and => Level.and
  | .exclusiveOr => Level.xor
  | .or => Level.or
  | .andAlso => Level.andAlso
  | .orElse => Level.orElse
  | .coalesce => Level.coalesce
  | .power | .arrayIndex => Level.primary
  | _ => Level.lambda

/-! ### Unary operators -/

inductive UnaryOp where
  | negate | negateChecked | unaryPlus | not | onesComplement | isTrue | isFalse
  | increment | decrement
  | preIncrementAssign | preDecrementAssign | postIncrementAssign | postDecrementAssign
  | convert | convertChecked | typeAs | quote
  /-- `throw` with an operand, or again without. -/
  | throw
  | unbox | arrayLength
deriving DecidableEq, Repr, Inhabited

namespace UnaryOp

def all : List UnaryOp :=
  [.negate, .negateChecked, .unaryPlus, .not, .onesComplement, .isTrue, .isFalse, .increment,
    .decrement, .preIncrementAssign, .preDecrementAssign, .postIncrementAssign,
    .postDecrementAssign, .convert, .convertChecked, .typeAs, .quote, .throw, .unbox,
    .arrayLength]

theorem mem_all (op : UnaryOp) : op ∈ all := by cases op <;> decide

def name : UnaryOp → String
  | .negate => "Negate"
  | .negateChecked => "NegateChecked"
  | .unaryPlus => "UnaryPlus"
  | .not => "Not"
  | .onesComplement => "OnesComplement"
  | .isTrue => "IsTrue"
  | .isFalse => "IsFalse"
  | .increment => "Increment"
  | .decrement => "Decrement"
  | .preIncrementAssign => "PreIncrementAssign"
  | .preDecrementAssign => "PreDecrementAssign"
  | .postIncrementAssign => "PostIncrementAssign"
  | .postDecrementAssign => "PostDecrementAssign"
  | .convert => "Convert"
  | .convertChecked => "ConvertChecked"
  | .typeAs => "TypeAs"
  | .quote => "Quote"
  | .throw => "Throw"
  | .unbox => "Unbox"
  | .arrayLength => "ArrayLength"

/-- Writes back to its operand. -/
def isAssignment : UnaryOp → Bool
  | .preIncrementAssign | .preDecrementAssign | .postIncrementAssign | .postDecrementAssign =>
    true
  | _ => false

/-- Changes the type of its operand. -/
def isConversion : UnaryOp → Bool
  | .convert | .convertChecked | .unbox => true
  | _ => false

end UnaryOp

/-! ### Node kinds -/

/-- The kinds of nodes. Every operator is a kind of its own. -/
inductive NodeKind where
  | constant
  | parameter
  | binary (op : BinaryOp)
  | unary (op : UnaryOp)
  | conditional
  | block
  | lambda
  | call
  | invoke
  | memberAccess
  | new
  | newArrayInit
  | newArrayBounds
  | memberInit
  | listInit
  | loop
  | goto
  | label
  | switch
  | try
  | default
  | index
  | typeIs
  | typeEqual
  | comment
  | extension
deriving DecidableEq, Repr, Inhabited

namespace NodeKind

def all : List NodeKind :=
  [NodeKind.constant, .parameter] ++ BinaryOp.all.map .binary ++ UnaryOp.all.map .unary ++
    [NodeKind.conditional, .block, .lambda, .call, .invoke, .memberAccess, .new, .newArrayInit,
      .newArrayBounds, .memberInit, .listInit, .loop, .goto, .label, .switch, .try, .default,
      .index, .typeIs, .typeEqual, .comment, .extension]

def name : NodeKind → String
  | .constant => "Constant"
  | .parameter => "Parameter"
  | .binary op => op.name
  | .unary op => op.name
  | .conditional => "Conditional"
  | .block => "Block"
  | .lambda => "Lambda"
  | .call => "Call"
  | .invoke => "Invoke"
  | .memberAccess => "MemberAccess"
  | .new => "New"
  | .newArrayInit => "NewArrayInit"
  | .newArrayBounds => "NewArrayBounds"
  | .memberInit => "MemberInit"
  | .listInit => "ListInit"
  | .loop => "Loop"
  | .goto => "Goto"
  | .label => "Label"
  | .switch => "Switch"
  | .try => "Try"
  | .default => "Default"
  | .index => "Index"
  | .typeIs => "TypeIs"
  | .typeEqual => "TypeEqual"
  | .comment => "Comment"
  | .extension => "Extension"

def ofName? (name : String) : Option NodeKind := all.find? (·.name == name)

end NodeKind
end TreeScribe
