import TreeScribe.Layout.Token
import TreeScribe.Text.LetterCase
import TreeScribe.TypeRef.Basic

/-! Type names as they are written in code, and names made up from types.

A written name is a list of segments with token classes: keywords for built-in types, `T?` for
nullable ones, `Name<A, B>` for generic ones, and the chain of enclosing types for nested ones,
each of which takes its own share of the flattened arguments. -/
namespace TreeScribe

structure TypeNameOptions where
  qualify : Bool := false
  /-- Leave out the element type of arrays. -/
  hideElement : Bool := false
  /-- Names anonymous types. -/
  anonymousNamer : Option (TypeRef → String) := none

namespace TypeRef

/-- A piece of a written name. -/
abbrev Segment := String × TokenClass

def plain (s : String) : Segment := (s, .plain)

def nameClass (t : TypeRef) : TokenClass := if t.isInterface then .interfaceName else .typeName

/-- The type and its enclosing types, outermost first. -/
def chain : TypeRef → List TypeRef
  | ⟨k, ns, n, d, as, e, r, an, cl⟩ =>
    chainOption d ++ [⟨k, ns, n, d, as, e, r, an, cl⟩]
where
  chainOption : Option TypeRef → List TypeRef
    | none => []
    | some t => chain t

def namespaceSegments (o : TypeNameOptions) (t : TypeRef) : List Segment :=
  match o.qualify, t.nameSpace with
  | true, some space => [plain (space ++ ".")]
  | _, _ => []

/-- Argument names in angle brackets. -/
def argumentList (names : List (List Segment)) : List Segment :=
  [plain "<"] ++ [plain ", "].intercalate names ++ [plain ">"]

/-- Where the arguments of a segment of some arity end. -/
def argumentsEnd (cursor arity count : Nat) : Nat := min (cursor + arity) count

/-- The same as a machine computes it, which checks the sum: if it is no 64-bit word, the process stops. -/
def argumentsEnd? (cursor arity count : Nat) : Option Nat :=
  if cursor + arity < UInt64.size then some (argumentsEnd cursor arity count) else none

/-- Where the arguments of each segment of a chain start and end, unless the process stops. -/
def shareOut? (count : Nat) : (cursor : Nat) → List TypeRef → Option (List (Nat × Nat))
  | _, [] => some []
  | cursor, t :: ts => do
    let stop ← argumentsEnd? cursor t.ownArity count
    return (cursor, stop) :: (← shareOut? count stop ts)

/-- The names of a chain, each with its share of the arguments from `cursor` on. -/
def chainSegments (o : TypeNameOptions) (names : List (List Segment)) :
    (first : Bool) → (cursor : Nat) → List TypeRef → List Segment
  | _, _, [] => []
  | first, cursor, t :: ts =>
    let stop := argumentsEnd cursor t.ownArity names.length
    let lead := if first then namespaceSegments o t else [plain "."]
    let own := if cursor < stop && 0 < t.ownArity then
        argumentList ((names.drop cursor).take (stop - cursor))
      else []
    lead ++ [(t.shortName, t.nameClass)] ++ own ++ chainSegments o names false stop ts

mutual

/-- The written name of a type. -/
def segments (o : TypeNameOptions) : TypeRef → List Segment
  | ⟨_, _, _, _, _, some element, rank, _, _⟩ =>
    (if o.hideElement then [] else segments o element) ++ [plain (brackets rank)]
  | ⟨k, ns, n, d, as, none, r, an, cl⟩ =>
    let t : TypeRef := ⟨k, ns, n, d, as, none, r, an, cl⟩
    if t.isParameter then [(n, .interfaceName)]
    else if t.isNullable then (segmentsAll o as).flatten ++ [plain "?"]
    else if t.isAnonymous then
      match o.anonymousNamer with
      | some namer => [(namer t, .typeName)]
      | none =>
        ("AnonymousType", .typeName) ::
          (if t.isGeneric then argumentList (segmentsAll o as) else [])
    else
      match t.keyword? with
      | some keyword => [(keyword, .keyword)]
      | none =>
        if t.isGeneric then chainSegments o (segmentsAll o as) true 0 t.chain
        else
          (match d with
          | some outer => segments o outer ++ [plain "."]
          | none => namespaceSegments o t) ++ [(t.shortName, t.nameClass)]

def segmentsAll (o : TypeNameOptions) : List TypeRef → List (List Segment)
  | [] => []
  | t :: ts => segments o t :: segmentsAll o ts

end

mutual

/-- Whether the process stops before the name is written: at the arguments of the type, or at those of a type
that its name is made of. -/
def overflows (o : TypeNameOptions) : TypeRef → Bool
  | ⟨_, _, _, _, _, some element, _, _, _⟩ => !o.hideElement && overflows o element
  | ⟨k, ns, n, d, as, none, r, an, cl⟩ =>
    let t : TypeRef := ⟨k, ns, n, d, as, none, r, an, cl⟩
    if t.isParameter then false
    else if t.isNullable then (overflowsAll o as).any id
    else if t.isAnonymous then o.anonymousNamer.isNone && (overflowsAll o as).any id
    else if t.keyword?.isSome then false
    else if t.isGeneric then
      match shareOut? as.length 0 t.chain with
      | none => true
      | some shares =>
        shares.any fun (start, stop) => (((overflowsAll o as).drop start).take (stop - start)).any id
    else
      match d with
      | some outer => overflows o outer
      | none => false

def overflowsAll (o : TypeNameOptions) : List TypeRef → List Bool
  | [] => []
  | t :: ts => overflows o t :: overflowsAll o ts

end

/-- The written name, unless the process stops. -/
def segments? (o : TypeNameOptions) (t : TypeRef) : Option (List Segment) :=
  if t.overflows o then none else some (t.segments o)

/-- The written name as one text. -/
def friendlyName (o : TypeNameOptions) (t : TypeRef) : String :=
  String.join ((t.segments o).map (·.1))

/-- The same, unless the process stops. -/
def friendlyName? (o : TypeNameOptions) (t : TypeRef) : Option String :=
  (t.segments? o).map fun name => String.join (name.map (·.1))

/-! ### Names made up from types -/

mutual

/-- A name in Pascal case that describes a type: `Int`, `IntList`, `NullableInt`. -/
def pascalName : TypeRef → String
  | ⟨_, _, _, _, _, some element, _, _, _⟩ => pascalName element ++ "Array"
  | ⟨k, ns, n, d, as, none, r, an, cl⟩ =>
    let t : TypeRef := ⟨k, ns, n, d, as, none, r, an, cl⟩
    if t.isNullable then "Nullable" ++ pascalNames as
    else if t.isAnonymous then "AnonymousType"
    else
      match t.keyword? with
      | some keyword => Text.capitalize keyword
      | none =>
        if t.isParameter then Text.capitalize n
        else pascalNames as ++ Text.capitalize t.shortName

/-- The names of several types in a row. -/
def pascalNames : List TypeRef → String
  | [] => ""
  | t :: ts => pascalName t ++ pascalNames ts

end

/-- The same name in camel case. -/
def camelName (t : TypeRef) : String := Text.uncapitalize t.pascalName

end TypeRef
end TreeScribe
