import TreeScribe.Member
import TreeScribe.Source.Error
import TreeScribe.TypeRef.Name

/-! Which interface method a generated method implements. -/
namespace TreeScribe

/-- An interface with the methods it asks for. -/
structure Interface where
  ty : TypeRef
  methods : List MethodInfo := []
deriving DecidableEq, Repr

namespace Interface

/-- All methods of interfaces, with the interface of each. -/
def allMethods (interfaces : List Interface) : List (TypeRef × MethodInfo) :=
  interfaces.flatMap fun i => i.methods.map fun m => (i.ty, m)

def hasSignature (m : MethodInfo) (parameters : List TypeRef) (returns : TypeRef) : Bool :=
  m.closedReturnType = returns && m.closedParameterTypes = parameters

/-- The one method with a signature, with its place among all methods. -/
def find? (interfaces : List Interface) (parameters : List TypeRef) (returns : TypeRef) :
    Except SourceError (Option (Nat × MethodInfo)) :=
  let candidates := (allMethods interfaces).zipIdx.filter fun (entry, _) =>
    hasSignature entry.2 parameters returns
  match candidates with
  | [] => return none
  | [(entry, place)] => return some (place, entry.2)
  | several =>
    throw (.ambiguousMethod parameters returns (several.map fun (entry, _) => (entry.1, entry.2.name)))

/-- `Interface.Method` for the methods that are at none of these places, unless the process stops at a name. -/
def missing? (interfaces : List Interface) (places : List Nat) : Option (List String) :=
  ((allMethods interfaces).zipIdx.filter fun (_, place) => !places.contains place).mapM
    fun ((ty, m), _) => (ty.friendlyName? {}).map fun name => name ++ "." ++ m.name

end Interface
end TreeScribe
