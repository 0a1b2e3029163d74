import TreeScribe.Tree.Form
import TreeScribe.TypeRef.Name

/-! The written names of variables and labels. -/
namespace TreeScribe

/-- Words of the language, which cannot name anything. -/
def reservedWords : List String :=
  ["abstract", "as", "base", "bool", "break", "byte", "case", "catch", "char", "checked",
    "class", "const", "continue", "decimal", "default", "delegate", "do", "double", "else",
    "enum", "event", "explicit", "extern", "false", "finally", "fixed", "float", "for",
    "foreach", "goto", "if", "implicit", "in", "int", "interface", "internal", "is", "lock",
    "long", "namespace", "new", "null", "object", "operator", "out", "override", "params",
    "private", "protected", "public", "readonly", "ref", "return", "sbyte", "sealed", "short",
    "sizeof", "stackalloc", "static", "string", "struct", "switch", "this", "throw", "true",
    "try", "typeof", "uint", "ulong", "unchecked", "unsafe", "ushort", "using", "virtual",
    "void", "volatile", "while"]

def isReserved (name : String) : Bool := reservedWords.contains name

/-- The name of a variable: a nameless one is called after its type, and a reserved word is
marked as a name. -/
def writtenName (ty : TypeRef) (name : String) : String :=
  let name := if name.isEmpty then ty.camelName else name
  if isReserved name then "@" ++ name else name

def Variable.writtenName (v : Variable) : String := TreeScribe.writtenName v.ty v.name

/-- The name of a label: a nameless one is numbered. -/
def Target.writtenName (t : Target) : String :=
  match t.name with
  | some name => if name.isEmpty then "label" ++ toString t.id else name
  | none => "label" ++ toString t.id

end TreeScribe
