import TreeScribe.Json.Basic

/-! Reading the fields of objects.

A field is required, or it may be left out or null, or it may be left out and then has a
default. Fields that nobody asks for are ignored, and one that is asked for must not stand there twice. -/
namespace TreeScribe.Json

variable {α : Type}

/-- A required field. -/
def field? (j : Json) (key : String) (read : Json → Option α) : Option α :=
  (j.member? key).join.bind read

/-- A field that may be left out or null. -/
def optional? (j : Json) (key : String) (read : Json → Option α) : Option (Option α) :=
  match j.member? key with
  | none => none
  | some none | some (some .null) => some none
  | some (some value) => (read value).map some

/-- A field that may be left out, and is then `default`. -/
def defaulted? (j : Json) (key : String) (default : α) (read : Json → Option α) : Option α :=
  match j.member? key with
  | none => none
  | some none => some default
  | some (some value) => read value

/-- A list of values. -/
def list? (read : Json → Option α) (j : Json) : Option (List α) :=
  j.asArray?.bind fun items => items.mapM read

/-- A string that is one character. -/
def char? (j : Json) : Option Char :=
  match j.asString?.map String.toList with
  | some [c] => some c
  | _ => none

/-- One of several values, by name. -/
def oneOf? (name : α → String) (all : List α) (j : Json) : Option α :=
  j.asString?.bind fun s => all.find? (name · == s)

end TreeScribe.Json
