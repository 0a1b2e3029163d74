import TreeScribe.Source.Name

/-! Messages for people, with codes and help lines, in colour or not. -/
namespace TreeScribe

inductive Severity where
  | error
  | warning
deriving DecidableEq, Repr, Inhabited

structure Diagnostic where
  severity : Severity := .error
  code : Option String := none
  message : String
  /-- The input that the message is about. -/
  origin : Option String := none
  help : List String := []
deriving DecidableEq, Repr

namespace Diagnostic

/-- A text in a terminal style. -/
def paint (coloured : Bool) (style s : String) : String :=
  if coloured then "\x1b[" ++ style ++ "m" ++ s ++ "\x1b[0m" else s

/-- The text of a message, each line ended. -/
def render (d : Diagnostic) (coloured : Bool) : String :=
  let paint := paint coloured
  let label :=
    match d.severity with
    | .error => paint "31" "error"
    | .warning => paint "33" "warning"
  let code :=
    match d.code with
    | some code => "[" ++ paint "1" code ++ "]"
    | none => ""
  let origin :=
    match d.origin with
    | some origin => "  " ++ paint "36" "-->" ++ " " ++ origin ++ "\n"
    | none => ""
  let help :=
    if d.help.isEmpty then ""
    else
      "   " ++ paint "36" "|" ++ "\n" ++ String.join (d.help.map fun line =>
        "   " ++ paint "36" "=" ++ " " ++ paint "36" "help" ++ ": " ++ line ++ "\n")
  label ++ code ++ ": " ++ paint "1" d.message ++ "\n" ++ origin ++ help

end Diagnostic

/-! ### Suggested names -/

/-- The characters of a part that can stay, with an underscore before a digit. -/
def cleanPart (part : List Char) : List Char :=
  let kept := (Text.trim part).filter isNameChar
  if kept.head?.any Char.isDigit then '_' :: kept else kept

/-- The name closest to a refused one, if anything of it can stay. -/
def suggestedName? (kind : NameKind) (name : String) : Option String :=
  let parts := (nameParts kind name).map cleanPart
  let cleaned :=
    match kind with
    | .ofNamespace => ['.'].intercalate (parts.filter (!·.isEmpty))
    | _ => parts.flatten
  let fixed := String.ofList cleaned
  if fixed.isEmpty || fixed == name then none else some fixed

/-! ### Errors as messages -/

namespace SourceError

def help : SourceError → List String
  | .invalidName kind name _ =>
    (kind.text ++ " names use letters, digits and underscores, and do not start with a digit") ::
      ((suggestedName? kind name).map fun fixed => "did you mean '" ++ fixed ++ "'?").toList
  | .duplicateName kind name =>
    ["give each " ++ kind.text ++ " a distinct name, e.g. '" ++ name ++ "2'"]
  | .noClasses => ["add at least one class to the builder"]
  | .noMethods _ => ["add at least one method to the class"]
  | .ambiguousMethod _ _ _ => ["name the method to pick the interface method it implements"]
  | .unsupported _ => ["a summary comment must be the only comment and precede a lambda"]

def diagnostic (e : SourceError) : Diagnostic :=
  { code := some e.code, message := e.message, help := e.help }

end SourceError
end TreeScribe
