import TreeScribe.TypeRef.Name

/-! What can go wrong when source is generated. -/
namespace TreeScribe

/-- What a name is for. -/
inductive NameKind where
  | ofClass
  | ofMethod
  | ofNamespace
deriving DecidableEq, Repr, Inhabited

def NameKind.text : NameKind → String
  | .ofClass => "class"
  | .ofMethod => "method"
  | .ofNamespace => "namespace"

/-- What is wrong with a name. -/
inductive NameFault where
  | blank
  | contains (c : Char)
  | startsWithDigit
  | reserved
deriving DecidableEq, Repr

def NameFault.text : NameFault → String
  | .blank => "must not be blank"
  | .contains c => "contains '" ++ c.toString ++ "'"
  | .startsWithDigit => "must not start with a digit"
  | .reserved => "is a reserved word"

/-- What is wrong with the comments of a method. -/
inductive SummaryFault where
  /-- A comment that no lambda follows. -/
  | orphan
  /-- More than one comment before a lambda. -/
  | several
deriving DecidableEq, Repr

def SummaryFault.text : SummaryFault → String
  | .orphan => "a method summary comment must be followed by the lambda it documents"
  | .several => "a lambda may be annotated by one leading comment only"

inductive SourceError where
  | invalidName (kind : NameKind) (name : String) (fault : NameFault)
  | duplicateName (kind : NameKind) (name : String)
  | noClasses
  | noMethods (className : String)
  /-- A method matches several methods of interfaces, each with its interface. -/
  | ambiguousMethod (parameters : List TypeRef) (returns : TypeRef) (candidates : List (TypeRef × String))
  | unsupported (fault : SummaryFault)
deriving DecidableEq, Repr

namespace SourceError

def message : SourceError → String
  | .invalidName kind name fault =>
    "invalid " ++ kind.text ++ " name '" ++ name ++ "': " ++ fault.text
  | .duplicateName kind name => "duplicate " ++ kind.text ++ " name '" ++ name ++ "'"
  | .noClasses => "source code has no classes"
  | .noMethods name => "class '" ++ name ++ "' has no methods"
  | .ambiguousMethod parameters returns candidates =>
    "method (" ++ ", ".intercalate (parameters.map (·.friendlyName {})) ++ ") returning " ++
      returns.friendlyName {} ++ " matches more than one interface method: " ++
      ", ".intercalate (candidates.map fun (ty, name) => ty.friendlyName {} ++ "." ++ name)
  | .unsupported fault => "unsupported expression: " ++ fault.text

/-- Whether the process stops before the message is there, at the name of a type in it. -/
def overflows : SourceError → Bool
  | .ambiguousMethod parameters returns candidates =>
    (parameters ++ [returns] ++ candidates.map (·.1)).any (·.overflows {})
  | _ => false

def code : SourceError → String
  | .invalidName _ _ _ => "R001"
  | .duplicateName _ _ => "R002"
  | .noClasses => "R003"
  | .noMethods _ => "R004"
  | .ambiguousMethod _ _ _ => "R005"
  | .unsupported _ => "R006"

end SourceError
end TreeScribe
