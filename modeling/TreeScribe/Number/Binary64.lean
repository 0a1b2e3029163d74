/-! Double-precision numbers, exactly.

Every finite double is a whole multiple of the smallest one, so a finite value is kept as
mantissa times a power of two in units of 2^-1074 and all rounding is done on natural numbers.
`nearest` rounds a quotient to the nearest double, a tie to the even mantissa; reading a decimal
is a short chain of such roundings (`ofDecimal?`). -/
namespace TreeScribe.Number

/-- A double. `finite s m e` has the magnitude `m * 2 ^ e` in units of 2^-1074, where `m` has at
most 53 bits, and exactly 53 unless `e` is zero. -/
inductive Binary64 where
  | nan
  | infinite (negative : Bool)
  | finite (negative : Bool) (mantissa exponent : Nat)
deriving DecidableEq, Repr, Inhabited

/-- The quotient to the nearest whole number, a tie to the even one. -/
def halfEven (n d : Nat) : Nat :=
  let q := n / d
  let r := n % d
  if 2 * r < d then q
  else if d < 2 * r then q + 1
  else if q % 2 = 0 then q
  else q + 1

namespace Binary64

/-- Units in one: the magnitude of 1 in units of 2^-1074. -/
def unit : Nat := Nat.pow 2 1074

/-- The double nearest to `n / d` units. -/
def nearestUnits (negative : Bool) (n d : Nat) : Binary64 :=
  let e := (n / d).log2 - 52
  let m := halfEven n (d * Nat.pow 2 e)
  let (m, e) := if m = Nat.pow 2 53 then (Nat.pow 2 52, e + 1) else (m, e)
  if 2045 < e then .infinite negative else .finite negative m e

/-- The double nearest to `n / d`. -/
def nearest (negative : Bool) (n d : Nat) : Binary64 := nearestUnits negative (n * unit) d

def ofInt (n : Int) : Binary64 := nearest (n < 0) n.natAbs 1

/-- The magnitude in units; zero where there is none. -/
def units : Binary64 → Nat
  | .finite _ m e => m * Nat.pow 2 e
  | _ => 0

def isNegative : Binary64 → Bool
  | .nan => false
  | .infinite s => s
  | .finite s m _ => s && m != 0

def isZero : Binary64 → Bool
  | .finite _ m _ => m == 0
  | _ => false

/-- Whole: no digits after the point. -/
def isWhole : Binary64 → Bool
  | .finite _ m e => m * Nat.pow 2 e % unit == 0
  | _ => false

def withSign (negative : Bool) : Binary64 → Binary64
  | .nan => .nan
  | .infinite _ => .infinite negative
  | .finite _ m e => .finite negative m e

/-! ### Reading decimals -/

/-- The double nearest to ten to the `k`. -/
def powerOfTen (k : Nat) : Binary64 := nearest false (Nat.pow 10 k) 1

/-- The product with the double nearest to ten to the `k`, rounded. -/
def timesPowerOfTen (x : Binary64) (k : Nat) : Binary64 :=
  match x with
  | .finite s m e => nearestUnits s (m * Nat.pow 2 e * (powerOfTen k).units) unit
  | x => x

/-- The quotient by the double nearest to ten to the `k`, rounded. -/
def overPowerOfTen (x : Binary64) (k : Nat) : Binary64 :=
  match x with
  | .finite s m e => nearestUnits s (m * Nat.pow 2 e * unit) (powerOfTen k).units
  | x => x

/-- Ten to this power is the largest that is a double. -/
def largestPower : Nat := 308

/-- Divides by ten to the `k`, by the largest power first while `k` exceeds it. Two such
divisions take any 64-bit number to zero, so three rounds are enough. -/
def overPowersOfTen : (rounds : Nat) → Binary64 → Nat → Binary64
  | 0, x, _ => x
  | rounds + 1, x, k =>
    if k ≤ largestPower then x.overPowerOfTen k
    else if x.isZero then x
    else overPowersOfTen rounds (x.overPowerOfTen largestPower) (k - largestPower)

/-- The magnitude `significand * 10 ^ exponent`, rounded after each step: the significand, then
the product or quotient. Too large a magnitude is refused. -/
def ofDecimal? (significand : Nat) (exponent : Int) : Option Binary64 :=
  let x := nearest false significand 1
  if exponent < 0 then some (overPowersOfTen 3 x exponent.natAbs)
  else if exponent.natAbs ≤ largestPower then
    match x.timesPowerOfTen exponent.natAbs with
    | .infinite _ => none
    | y => some y
  else if x.isZero then some x
  else none

end Binary64
end TreeScribe.Number
