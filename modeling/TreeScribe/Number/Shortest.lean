import TreeScribe.Number.Binary64

/-! The shortest decimal that reads back as a given double.

The reals that round to a double form an interval around it. For one digit, two digits and so
on, the two neighbours of the value on that decimal grid are tried: the first grid with a point
in the interval wins, and of two points the nearer. A `Style` says how the digits are then
written. -/
namespace TreeScribe.Number

/-- Which neighbour an exact tie takes. -/
inductive Tie where
  | up
  | even
deriving DecidableEq, Repr

/-- A decimal: `digits * 10 ^ power`. -/
structure Decimal where
  digits : Nat
  power : Int
deriving DecidableEq, Repr

namespace Decimal

/-- Moves trailing zeros of the digits into the power, at most `limit` of them. -/
def dropZeros : (limit : Nat) → Decimal → Decimal
  | 0, d => d
  | limit + 1, d =>
    if d.digits != 0 && d.digits % 10 == 0 then dropZeros limit ⟨d.digits / 10, d.power + 1⟩
    else d

/-- How many digits stand before the point of the positive number `n / d`; not positive when
the number is below one tenth. Every double is above 10^-400. -/
def pointPosition (n d : Nat) : Int := (Nat.toDigits 10 (n * Nat.pow 10 400 / d)).length - 400

/-- The nearest point inside the interval on the grid of step `10 ^ power`, for the value
`n / scale` with the interval `lo / scale` to `hi / scale`. -/
def onGrid (tie : Tie) (lo n hi scale : Nat) (closed : Bool) (power : Int) : Option Nat :=
  let a := Nat.pow 10 (-power).toNat
  let b := scale * Nat.pow 10 power.toNat
  let below := n * a / b
  let inside (c : Nat) : Bool :=
    if closed then lo * a ≤ c * b && c * b ≤ hi * a
    else lo * a < c * b && c * b < hi * a
  match inside below, inside (below + 1) with
  | false, false => none
  | true, false => some below
  | false, true => some (below + 1)
  | true, true =>
    let down := n * a - below * b
    let up := (below + 1) * b - n * a
    if down < up then some below
    else if up < down then some (below + 1)
    else
      match tie with
      | .up => some (below + 1)
      | .even => some (if below % 2 = 0 then below else below + 1)

/-- The shortest decimal in the rounding interval of the positive double with mantissa `m` and
exponent `e`. Seventeen digits always suffice. -/
def shortest (tie : Tie) (m e : Nat) : Decimal :=
  let scale := 4 * Binary64.unit
  let step := Nat.pow 2 e
  let n := 4 * m * step
  let hi := n + 2 * step
  -- Below a power of two the next double is only half as far away.
  let lo := if m = Nat.pow 2 52 && e != 0 then n - step else n - 2 * step
  let point := pointPosition n scale
  let found := (List.range 17).findSome? fun k =>
    let power := point - (k + 1 : Nat)
    (onGrid tie lo n hi scale (m % 2 == 0) power).map fun d => (⟨d, power⟩ : Decimal)
  dropZeros 20 (found.getD ⟨0, 0⟩)

end Decimal

/-! ### Writing the digits -/

/-- How a double is written. Exponents are those of scientific writing, one digit before the
point; within `positional` no exponent is written. -/
structure Style where
  tie : Tie
  positional : Option (Int × Int)
  /-- Write `.0` after a whole number. -/
  pointZero : Bool

namespace Style

def zeros (n : Nat) : String := String.ofList (List.replicate n '0')

def positionalText (style : Style) (digits : String) (point : Int) : String :=
  let count : Int := digits.length
  if point ≤ 0 then "0." ++ zeros (-point).toNat ++ digits
  else if count ≤ point then
    digits ++ zeros (point - count).toNat ++ (if style.pointZero then ".0" else "")
  else
    String.ofList (digits.toList.take point.toNat) ++ "." ++
      String.ofList (digits.toList.drop point.toNat)

def scientificText (digits : String) (exponent : Int) : String :=
  let fraction := digits.toList.drop 1
  String.ofList (digits.toList.take 1) ++
    (if fraction.isEmpty then "" else "." ++ String.ofList fraction) ++
    (if exponent < 0 then "e-" else "e+") ++ toString exponent.natAbs

/-- The text of a magnitude. -/
def magnitudeText (style : Style) (m e : Nat) : String :=
  if m = 0 then (if style.pointZero then "0.0" else "0")
  else
    let d := Decimal.shortest style.tie m e
    let digits := toString d.digits
    let point := (digits.length : Int) + d.power
    match style.positional with
    | none => positionalText style digits point
    | some (least, bound) =>
      if least ≤ point - 1 && point - 1 < bound then positionalText style digits point
      else scientificText digits (point - 1)

/-- The text of a finite double; nothing for the others. -/
def text? (style : Style) : Binary64 → Option String
  | .finite negative m e =>
    some ((if negative then "-" else "") ++ style.magnitudeText m e)
  | _ => none

end Style
end TreeScribe.Number
