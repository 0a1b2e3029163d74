import TreeScribe.Json.Basic
import TreeScribe.Number.Shortest

/-! Writing JSON text, on one line (`compact`) or indented by two spaces a level (`pretty`).

Both write strings and numbers alike. Numbers that have no JSON text are written as null. A
writer is given the text that follows, so that no part of a text is copied at every level. -/
namespace TreeScribe.Json

/-- Doubles keep a point, ties go to the even digit, and an exponent is written below 1e-5 and
from 1e16 on. -/
def realStyle : Number.Style where
  tie := .even
  positional := some (-5, 16)
  pointZero := true

def Numeral.text : Numeral → String
  | .whole n => toString n
  | .real x => (realStyle.text? x).getD "null"

def hexChar (n : Nat) : Char := Nat.digitChar n

def escapeChar (c : Char) : List Char :=
  if c == '"' then ['\\', '"']
  else if c == '\\' then ['\\', '\\']
  else if c == '\x08' then ['\\', 'b']
  else if c == '\x0c' then ['\\', 'f']
  else if c == '\n' then ['\\', 'n']
  else if c == '\r' then ['\\', 'r']
  else if c == '\t' then ['\\', 't']
  else if c.toNat < 0x20 then
    ['\\', 'u', '0', '0', hexChar (c.toNat / 16), hexChar (c.toNat % 16)]
  else [c]

/-- A string between quotes, before `rest`. -/
def quoteThen (s : String) (rest : List Char) : List Char :=
  '"' :: (s.toList.flatMap escapeChar ++ '"' :: rest)

/-- A value without parts, before `rest`. -/
def wordThen (s : String) (rest : List Char) : List Char := s.toList ++ rest

def boolText (b : Bool) : String := if b then "true" else "false"

mutual

/-- A value on one line, before `rest`. -/
def compactThen : Json → (rest : List Char) → List Char
  | .null, rest => wordThen "null" rest
  | .bool b, rest => wordThen (boolText b) rest
  | .number n, rest => wordThen n.text rest
  | .string s, rest => quoteThen s rest
  | .array items, rest => '[' :: compactItemsThen items (']' :: rest)
  | .object fields, rest => '\x7b' :: compactFieldsThen fields ('\x7d' :: rest)

def compactItemsThen : List Json → (rest : List Char) → List Char
  | [], rest => rest
  | [item], rest => compactThen item rest
  | item :: items, rest => compactThen item (',' :: compactItemsThen items rest)

def compactFieldsThen : List (String × Json) → (rest : List Char) → List Char
  | [], rest => rest
  | [field], rest => quoteThen field.1 (':' :: compactThen field.2 rest)
  | field :: fields, rest =>
    quoteThen field.1 (':' :: compactThen field.2 (',' :: compactFieldsThen fields rest))

end

/-- The text on one line. -/
def compact (j : Json) : String := String.ofList (j.compactThen [])

/-- A new line at a nesting level, before `rest`. -/
def newLineThen (level : Nat) (rest : List Char) : List Char :=
  '\n' :: (List.replicate (2 * level) ' ' ++ rest)

mutual

/-- A value with its parts on lines of their own, before `rest`. -/
def prettyThen (level : Nat) : Json → (rest : List Char) → List Char
  | .null, rest => wordThen "null" rest
  | .bool b, rest => wordThen (boolText b) rest
  | .number n, rest => wordThen n.text rest
  | .string s, rest => quoteThen s rest
  | .array [], rest => '[' :: ']' :: rest
  | .array items, rest => '[' :: prettyItemsThen (level + 1) items (newLineThen level (']' :: rest))
  | .object [], rest => '\x7b' :: '\x7d' :: rest
  | .object fields, rest =>
    '\x7b' :: prettyFieldsThen (level + 1) fields (newLineThen level ('\x7d' :: rest))

def prettyItemsThen (level : Nat) : List Json → (rest : List Char) → List Char
  | [], rest => rest
  | [item], rest => newLineThen level (prettyThen level item rest)
  | item :: items, rest =>
    newLineThen level (prettyThen level item (',' :: prettyItemsThen level items rest))

def prettyFieldsThen (level : Nat) : List (String × Json) → (rest : List Char) → List Char
  | [], rest => rest
  | [field], rest =>
    newLineThen level (quoteThen field.1 (':' :: ' ' :: prettyThen level field.2 rest))
  | field :: fields, rest =>
    newLineThen level (quoteThen field.1 (':' :: ' ' ::
      prettyThen level field.2 (',' :: prettyFieldsThen level fields rest)))

end

/-- The indented text. -/
def pretty (j : Json) : String := String.ofList (j.prettyThen 0 [])

end TreeScribe.Json
