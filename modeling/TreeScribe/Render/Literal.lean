import TreeScribe.Number.Shortest
import TreeScribe.Render.Env

/-! Literals, default values, comments and nodes of a sort of their own. -/
namespace TreeScribe.Render

open Atoms

/-! ### Literals -/

/-- How a character is written between quotes of some kind. -/
def escapeChar (quote c : Char) : List Char :=
  if c == '\\' then ['\\', '\\']
  else if c == '\n' then ['\\', 'n']
  else if c == '\r' then ['\\', 'r']
  else if c == '\t' then ['\\', 't']
  else if c == '\x00' then ['\\', '0']
  else if c == quote then ['\\', c]
  else [c]

def escape (quote : Char) (cs : List Char) : List Char := cs.flatMap (escapeChar quote)

/-- A text in quotes. -/
def quotedLiteral (quote : Char) (cs : List Char) : String :=
  String.ofList (quote :: escape quote cs ++ [quote])

/-- Numbers in code have no exponent, and a tie goes up. -/
def numberStyle : Number.Style where
  tie := .up
  positional := none
  pointZero := false

/-- The suffix of an integer literal of some type. -/
def integerSuffix (ty : TypeRef) (isSigned : Bool) : String :=
  if isSigned then (if ty = .long then "L" else "")
  else if ty = .ulong then "UL"
  else if ty = .uint then "U"
  else ""

def realLiteral (env : Env) (x : Number.Binary64) (ty : TypeRef) : Atoms :=
  let member (name : String) : Atoms := env.typeName ty ++ text "." ++ text name
  match numberStyle.text? x with
  | some digits =>
    token .numeric
      (digits ++ if ty = .float then "f" else if x.isWhole then "d" else "")
  | none =>
    match x with
    | .nan => member "NaN"
    | x => member (if x.isNegative then "NegativeInfinity" else "PositiveInfinity")

def literalAtoms (env : Env) (v : ConstantValue) (ty : TypeRef) : Atoms :=
  match v with
  | .null => keyword "null"
  | .bool b => keyword (if b then "true" else "false")
  | .int n => token .numeric (toString n ++ integerSuffix ty true)
  | .uint n => token .numeric (toString n ++ integerSuffix ty false)
  | .float x => realLiteral env x ty
  | .decimal digits => token .numeric (digits ++ "m")
  | .char c => token .text (quotedLiteral '\'' [c])
  | .string s => token .text (quotedLiteral '"' s.toList)
  | .type t => keyword "typeof" ++ parens (env.typeName t)
  | .enumMember name => env.typeName ty ++ text "." ++ text name
  | .closure _ => env.typeName ty
  | .object display => text display

/-- A literal for a value of some type. -/
def literal (env : Env) (v : ConstantValue) (ty : TypeRef) : Doc :=
  { kind := .constant, ty, atoms := literalAtoms env v ty }

/-! ### Defaults, comments, extensions -/

/-- A default of the void type is not written. -/
def defaultValue (env : Env) (ty : TypeRef) : Doc :=
  if ty.isVoid then .absent .default ty
  else
    { kind := .default, ty
      atoms := keyword "default" ++ parens (env.typeName ty) }

/-- A line of a comment, which starts with slashes. -/
def commentLine (line : List Char) : String :=
  let line := Text.trim line
  if ['/', '/'].isPrefixOf line then String.ofList line else "// " ++ String.ofList line

def commentLines : List (List Char) → Atoms
  | [] => []
  | [line] => token .comment (commentLine line)
  | line :: lines => token .comment (commentLine line) ++ newline ++ commentLines lines

def comment (s : String) : Doc :=
  { kind := .comment, ty := .void, atoms := commentLines (Text.lines s.toList)
    isTerminated := true }

def extension (name : String) (ty : TypeRef) (display : Option String) (operands : List Child) :
    Rendering Doc := do
  match display with
  | some display => return { kind := .extension, ty, atoms := text display }
  | none =>
    if operands.isEmpty then return { kind := .extension, ty, atoms := text name }
    else
      return { kind := .extension, ty
               atoms := text name ++ parens (separated ", " (← values operands)) }

end TreeScribe.Render
