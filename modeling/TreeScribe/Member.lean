import TreeScribe.TypeRef.Substitution

/-! Methods, constructors, fields and properties that a tree refers to. -/
namespace TreeScribe

/-- How an argument is passed. -/
inductive PassingMode where
  | value
  | ref
  | out
deriving DecidableEq, Repr, Inhabited

structure ParameterInfo where
  name : String
  ty : TypeRef
  mode : PassingMode := .value
  /-- Takes the remaining arguments as an array. -/
  isParams : Bool := false
deriving DecidableEq, Repr

structure MethodInfo where
  name : String
  declaring : TypeRef
  /-- May mention generic parameters, as may the parameter types. -/
  returnType : TypeRef
  parameters : List ParameterInfo := []
  isStatic : Bool := false
  /-- Static, and callable on its first argument. -/
  isExtension : Bool := false
  genericParameters : List TypeRef := []
  /-- The arguments of the generic parameters, in their order. -/
  genericArgs : List TypeRef := []
deriving DecidableEq, Repr

namespace MethodInfo

def asStatic (m : MethodInfo) : MethodInfo := { m with isStatic := true }

def asExtension (m : MethodInfo) : MethodInfo := { m with isStatic := true, isExtension := true }

def isGeneric (m : MethodInfo) : Bool := !m.genericParameters.isEmpty

/-- A type of the signature with the generic arguments put in. -/
def closed (m : MethodInfo) (t : TypeRef) : TypeRef :=
  t.substitute m.genericParameters m.genericArgs

def closedReturnType (m : MethodInfo) : TypeRef := m.closed m.returnType

def closedParameterTypes (m : MethodInfo) : List TypeRef := m.parameters.map (m.closed ·.ty)

/-- The rest of the name after a lead, if it starts so and more follows. -/
def nameAfter? (m : MethodInfo) (lead : String) : Option String :=
  if lead.toList.isPrefixOf m.name.toList && lead.length < m.name.length then
    some (String.ofList (m.name.toList.drop lead.length))
  else none

def isGetter (m : MethodInfo) : Bool := (m.nameAfter? "get_").isSome

def isSetter (m : MethodInfo) : Bool := (m.nameAfter? "set_").isSome

/-- The property that an accessor reads or writes. -/
def property? (m : MethodInfo) : Option String := m.nameAfter? "get_" <|> m.nameAfter? "set_"

/-- An operator overload. -/
def isOperator (m : MethodInfo) : Bool := m.isStatic && "op_".toList.isPrefixOf m.name.toList

end MethodInfo

structure ConstructorInfo where
  declaring : TypeRef
  parameters : List ParameterInfo := []
deriving DecidableEq, Repr

inductive MemberKind where
  | field
  | property
deriving DecidableEq, Repr, Inhabited

/-- A field or property. -/
structure MemberInfo where
  name : String
  declaring : TypeRef
  memberType : TypeRef
  kind : MemberKind
  isStatic : Bool := false
deriving DecidableEq, Repr

end TreeScribe
