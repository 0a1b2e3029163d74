import TreeScribe.Number.Binary64

/-! JSON values.

A number keeps whether it was written as a whole number: `1`, `1.0` and `1e0` are not the same
value, since a count may be read from the first only. Objects keep their fields in order. -/
namespace TreeScribe

namespace Json

/-- A whole number as written, between the least signed and the largest unsigned 64-bit word, or
any other number. -/
inductive Numeral where
  | whole (n : Int)
  | real (x : Number.Binary64)
deriving DecidableEq, Repr

end Json

inductive Json where
  | null
  | bool (b : Bool)
  | number (n : Json.Numeral)
  | string (s : String)
  | array (items : List Json)
  | object (fields : List (String × Json))
deriving Repr, Inhabited

namespace Json

def ofNat (n : Nat) : Json := .number (.whole n)

def ofInt (n : Int) : Json := .number (.whole n)

def ofOption {α : Type} (f : α → Json) : Option α → Json
  | some a => f a
  | none => .null

def ofList {α : Type} (f : α → Json) (items : List α) : Json := .array (items.map f)

/-- The value of a field, if there is one. Only an object is asked for fields, and none that it has twice. -/
def member? (j : Json) (key : String) : Option (Option Json) :=
  match j with
  | .object fields =>
    match fields.filter (·.1 == key) with
    | [] => some none
    | [field] => some (some field.2)
    | _ => none
  | _ => none

def asString? : Json → Option String
  | .string s => some s
  | _ => none

def asBool? : Json → Option Bool
  | .bool b => some b
  | _ => none

def asArray? : Json → Option (List Json)
  | .array items => some items
  | _ => none

/-- A whole number below `bound`. -/
def asNatBelow? (bound : Nat) : Json → Option Nat
  | .number (.whole n) => if 0 ≤ n && n < bound then some n.toNat else none
  | _ => none

/-- A whole number that fits a signed 64-bit word. -/
def asSigned? : Json → Option Int
  | .number (.whole n) => if -0x8000000000000000 ≤ n && n < 0x8000000000000000 then some n else none
  | _ => none

/-- Any number, rounded to a double. -/
def asReal? : Json → Option Number.Binary64
  | .number (.whole n) => some (.ofInt n)
  | .number (.real x) => some x
  | _ => none

mutual

/-- How many arrays and objects are nested, outermost included. -/
def depth : Json → Nat
  | .array items => depthList items + 1
  | .object fields => depthFields fields + 1
  | _ => 0

def depthList : List Json → Nat
  | [] => 0
  | item :: items => max (depth item) (depthList items)

def depthFields : List (String × Json) → Nat
  | [] => 0
  | field :: fields => max (depth field.2) (depthFields fields)

end

end Json
end TreeScribe
