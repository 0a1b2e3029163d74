import TreeScribe.Render.Name
import TreeScribe.Source.Error
import TreeScribe.Text.Alphanumeric
import TreeScribe.Text.Lines

/-! Names of classes, methods and namespaces: which are valid, and how those are named that come
without one. -/
namespace TreeScribe

def defaultNamespace : String := "GeneratedExpressionCode"

def defaultClassName : String := "GeneratedExpressionClass"

/-- `Get` and the name of the result, or an action without one. -/
def defaultMethodName (returns : TypeRef) : String :=
  if returns.isVoid then "DoAction" else "Get" ++ returns.pascalName

/-! ### Valid names -/

/-- A character that names consist of. -/
def isNameChar (c : Char) : Bool := Text.isAlphanumeric c || c == '_'

/-- What is wrong with a name without dots. -/
def nameFault? (part : List Char) : Option NameFault :=
  if (Text.trim part).isEmpty then some .blank
  else
    match part.find? (!isNameChar ·) with
    | some c => some (.contains c)
    | none =>
      if part.head?.any Char.isDigit then some .startsWithDigit
      else if isReserved (String.ofList part) then some .reserved
      else none

/-- The parts of a name; only namespaces have several. -/
def nameParts (kind : NameKind) (name : String) : List (List Char) :=
  match kind with
  | .ofNamespace => Text.splitOn '.' name.toList
  | _ => [name.toList]

/-- Refuses a name of which a part is not valid. -/
def validateName (kind : NameKind) (name : String) : Except SourceError Unit :=
  match (nameParts kind name).findSome? nameFault? with
  | some fault => throw (.invalidName kind name fault)
  | none => return ()

/-! ### Repetition and numbering -/

/-- The first name that has come before. -/
def firstRepeated? : (seen names : List String) → Option String
  | _, [] => none
  | seen, name :: names =>
    if seen.contains name then some name else firstRepeated? (name :: seen) names

/-- Refuses a list in which a name appears twice. -/
def ensureUnique (kind : NameKind) (names : List String) : Except SourceError Unit :=
  match firstRepeated? [] names with
  | some name => throw (.duplicateName kind name)
  | none => return ()

/-- A name that is given, or else a default. -/
structure NameSlot where
  given : Option String := none
  default : String
deriving DecidableEq, Repr

/-- The defaults that are used, in order. -/
def NameSlot.defaults (slots : List NameSlot) : List String :=
  (slots.filter (·.given.isNone)).map (·.default)

/-- The names of slots after `earlier` uses of defaults, out of all `uses`. -/
def NameSlot.resolveFrom (uses : List String) : (earlier : List String) → List NameSlot →
    List String
  | _, [] => []
  | earlier, ⟨some name, _⟩ :: slots => name :: resolveFrom uses earlier slots
  | earlier, ⟨none, default⟩ :: slots =>
    let name :=
      if uses.count default ≤ 1 then default
      else default ++ toString (earlier.count default + 1)
    name :: resolveFrom uses (default :: earlier) slots

/-- One name for each slot; a default that several slots use is numbered. -/
def NameSlot.resolve (slots : List NameSlot) : List String :=
  resolveFrom (defaults slots) [] slots

end TreeScribe
