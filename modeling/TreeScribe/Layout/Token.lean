/-! Token classes and output formats.

Every written text has a class, and a `Format` says how a text of a class reaches the output:
as it is, or in a span that names the class. -/
namespace TreeScribe

inductive TokenClass where
  | plain
  | keyword
  /-- `if`, `while`, `return`, `throw` and the like. -/
  | control
  | typeName
  /-- Interfaces and open generic parameters. -/
  | interfaceName
  | variable
  | methodName
  | numeric
  | text
  | comment
deriving DecidableEq, Repr, Inhabited

namespace TokenClass

/-- The style class of a span; plain text has no span. -/
def style? : TokenClass → Option String
  | .plain => none
  | .keyword => some "kw"
  | .control => some "cs"
  | .typeName => some "tn"
  | .interfaceName => some "in"
  | .variable => some "vb"
  | .methodName => some "mn"
  | .numeric => some "nm"
  | .text => some "tx"
  | .comment => some "cm"

end TokenClass

/-- How tokens are marked up. There are these two formats, and no way to give another one. -/
inductive Format where
  | plain
  | html
deriving DecidableEq, Repr, Inhabited

namespace Format

/-- A character that would read as markup is written as an entity. -/
def encodeChar (c : Char) : List Char :=
  match c with
  | '&' => "&amp;".toList
  | '<' => "&lt;".toList
  | '>' => "&gt;".toList
  | '"' => "&quot;".toList
  | c => [c]

/-- The text without a class. -/
def encode (format : Format) (s : String) : String :=
  match format with
  | .plain => s
  | .html => String.ofList (s.toList.flatMap encodeChar)

def spanOpen (style : String) : String := "<span class=\"" ++ style ++ "\">"

def spanClose : String := "</span>"

/-- The text as one of a class. -/
def mark (format : Format) (cls : TokenClass) (s : String) : String :=
  match format, cls.style? with
  | .html, some style => spanOpen style ++ format.encode s ++ spanClose
  | _, _ => format.encode s

/-- The characters that marking adds around a text. -/
def overhead (format : Format) (cls : TokenClass) : Nat :=
  match format, cls.style? with
  | .html, some style => (spanOpen style).length + spanClose.length
  | _, _ => 0

end Format
end TreeScribe
