import TreeScribe.TypeRef.Basic

/-! Where a node stands, which decides how it is written. -/
namespace TreeScribe

inductive Position where
  /-- As an expression. -/
  | value
  /-- As a statement whose value nobody uses. -/
  | statement
  /-- As the statement that gives the value of the body around it. -/
  | returning
deriving DecidableEq, Repr, Inhabited

/-- The position of a body that gives a value or not. -/
def Position.ofBody (returns : Bool) : Position := if returns then .returning else .statement

/-- What becomes of the last expression of a block. -/
inductive BlockRole where
  /-- All are statements. -/
  | discard
  /-- The value of the last is returned. -/
  | return
  /-- The last is written as a value. -/
  | value
deriving DecidableEq, Repr, Inhabited

namespace BlockRole

def ofBody (returns : Bool) : BlockRole := if returns then .return else .discard

/-- The position of the last expression of a block of some type; the others are statements. -/
def lastPosition (role : BlockRole) (ty : TypeRef) : Position :=
  match role with
  | .discard => .statement
  | .return => if ty.isVoid then .statement else .returning
  | .value => .value

end BlockRole
end TreeScribe
