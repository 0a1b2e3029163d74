import TreeScribe.Json.Field
import TreeScribe.TypeRef.Basic

/-! The stored form of types. -/
namespace TreeScribe

namespace TypeKind

def all : List TypeKind :=
  [.classType, .struct, .interface, .enum, .delegate, .genericParameter, .array]

def storedName : TypeKind → String
  | .classType => "class"
  | .struct => "struct"
  | .interface => "interface"
  | .enum => "enum"
  | .delegate => "delegate"
  | .genericParameter => "generic_parameter"
  | .array => "array"

end TypeKind

namespace TypeRef

open Json

mutual

def toJson : TypeRef → Json
  | ⟨kind, space, name, declaring, args, element, rank, isAnonymous, isClosure⟩ =>
    .object [("kind", .string kind.storedName), ("namespace", Json.ofOption .string space),
      ("name", .string name), ("declaring_type", optionToJson declaring),
      ("generic_args", .array (listToJson args)), ("element_type", optionToJson element),
      ("rank", Json.ofNat rank), ("is_anonymous", .bool isAnonymous),
      ("is_closure", .bool isClosure)]

def optionToJson : Option TypeRef → Json
  | none => .null
  | some t => toJson t

def listToJson : List TypeRef → List Json
  | [] => []
  | t :: ts => toJson t :: listToJson ts

end

/-- Reads a type nested at most `fuel` deep. -/
def ofJsonUpTo? : (fuel : Nat) → Json → Option TypeRef
  | 0, _ => none
  | fuel + 1, j => do
    let read := ofJsonUpTo? fuel
    return {
      kind := ← field? j "kind" (oneOf? TypeKind.storedName TypeKind.all)
      nameSpace := ← optional? j "namespace" asString?
      name := ← field? j "name" asString?
      declaring := ← optional? j "declaring_type" read
      args := ← defaulted? j "generic_args" [] (list? read)
      element := ← optional? j "element_type" read
      rank := ← defaulted? j "rank" 1 (asNatBelow? 256)
      isAnonymous := ← defaulted? j "is_anonymous" false asBool?
      isClosure := ← defaulted? j "is_closure" false asBool? }

def ofJson? (j : Json) : Option TypeRef := ofJsonUpTo? j.depth j

end TypeRef
end TreeScribe
