import TreeScribe.TypeRef.Name

/-! The namespaces that code needs to import.

`NamespaceSet` collects them without repetition, and `sorted` lists them in the order of
`using` lines: `System` and what lies under it first, then the rest, each by code point. -/
namespace TreeScribe

def isSystemNamespace (space : String) : Bool :=
  space == TypeRef.system || (TypeRef.system ++ ".").toList.isPrefixOf space.toList

/-- The order of `using` lines. -/
def namespaceLE (a b : String) : Bool :=
  match isSystemNamespace a, isSystemNamespace b with
  | true, false => true
  | false, true => false
  | _, _ => a ≤ b

/-- Sorted, each once. -/
def sortNamespaces (spaces : List String) : List String :=
  (spaces.mergeSort namespaceLE).eraseReps

namespace TypeRef

/-- The namespace of the outermost enclosing type. -/
def outerNamespace? (t : TypeRef) : Option String := t.chain.head?.bind (·.nameSpace)

mutual

/-- The namespaces that writing a type by its short name needs. -/
def requiredNamespaces : TypeRef → List String
  | ⟨_, _, _, _, _, some element, _, _, _⟩ => requiredNamespaces element
  | ⟨k, ns, n, d, as, none, r, an, cl⟩ =>
    let t : TypeRef := ⟨k, ns, n, d, as, none, r, an, cl⟩
    if t.isNullable then requiredNamespacesAll as
    else if t.isParameter || t.keyword?.isSome || t.isClosure then []
    else
      requiredNamespacesAll as ++
        (if t.isAnonymous then [] else t.outerNamespace?.toList)

def requiredNamespacesAll : List TypeRef → List String
  | [] => []
  | t :: ts => requiredNamespaces t ++ requiredNamespacesAll ts

end

end TypeRef

/-- Namespaces without repetition. -/
structure NamespaceSet where
  spaces : List String := []
deriving Repr, Inhabited

namespace NamespaceSet

/-- Adds a namespace; the global one has no name and is never imported. -/
def add (set : NamespaceSet) (space : String) : NamespaceSet :=
  if space.isEmpty || set.spaces.contains space then set else ⟨set.spaces ++ [space]⟩

def addAll (set : NamespaceSet) (spaces : List String) : NamespaceSet := spaces.foldl add set

def addType (set : NamespaceSet) (t : TypeRef) : NamespaceSet := set.addAll t.requiredNamespaces

def size (set : NamespaceSet) : Nat := set.spaces.length

def sorted (set : NamespaceSet) : List String := sortNamespaces set.spaces

end NamespaceSet
end TreeScribe
