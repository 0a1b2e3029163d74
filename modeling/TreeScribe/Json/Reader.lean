import TreeScribe.Json.Basic

/-! Reading JSON text.

The text is cut into tokens first (`Token.scan?`) and the tokens are then read as one value with
nothing left over (`Json.parse?`). The grammar is strict: no comments, no trailing commas, no
leading zeros, no raw control characters and no unpaired surrogates. -/
namespace TreeScribe.Json

open Number (Binary64)

inductive Token where
  | openBrace
  | closeBrace
  | openBracket
  | closeBracket
  | colon
  | comma
  | null
  | bool (b : Bool)
  | number (n : Numeral)
  | string (s : String)
deriving Repr

/-! ### Strings -/

def hexDigit? (c : Char) : Option Nat :=
  let n := c.toNat
  if 48 ≤ n && n ≤ 57 then some (n - 48)
  else if 97 ≤ n && n ≤ 102 then some (n - 87)
  else if 65 ≤ n && n ≤ 70 then some (n - 55)
  else none

def hexWord? (a b c d : Char) : Option Nat := do
  let a ← hexDigit? a
  let b ← hexDigit? b
  let c ← hexDigit? c
  let d ← hexDigit? d
  return ((a * 16 + b) * 16 + c) * 16 + d

/-- The character after a backslash in a short escape. -/
def shortEscape? (c : Char) : Option Char :=
  match c with
  | '"' => some '"'
  | '\\' => some '\\'
  | '/' => some '/'
  | 'b' => some '\x08'
  | 'f' => some '\x0c'
  | 'n' => some '\n'
  | 'r' => some '\r'
  | 't' => some '\t'
  | _ => none

/-- The characters up to the closing quote, and the text after it. -/
def scanString? : List Char → Option (List Char × List Char)
  | [] => none
  | '"' :: rest => some ([], rest)
  | '\\' :: 'u' :: a :: b :: c :: d :: rest => do
    let word ← hexWord? a b c d
    if 0xDC00 ≤ word && word ≤ 0xDFFF then none
    else if 0xD800 ≤ word && word ≤ 0xDBFF then
      match rest with
      | '\\' :: 'u' :: a :: b :: c :: d :: rest => do
        let low ← hexWord? a b c d
        if 0xDC00 ≤ low && low ≤ 0xDFFF then
          let (s, rest) ← scanString? rest
          return (Char.ofNat (0x10000 + (word - 0xD800) * 0x400 + (low - 0xDC00)) :: s, rest)
        else none
      | _ => none
    else
      let (s, rest) ← scanString? rest
      return (Char.ofNat word :: s, rest)
  | '\\' :: c :: rest => do
    let c ← shortEscape? c
    let (s, rest) ← scanString? rest
    return (c :: s, rest)
  | c :: rest =>
    if c.toNat < 0x20 || c == '\\' then none
    else do
      let (s, rest) ← scanString? rest
      return (c :: s, rest)

/-! ### Numbers -/

def digitValue (c : Char) : Nat := c.toNat - 48

/-- The largest significand that is kept exactly. -/
def largestWord : Nat := 0xffffffffffffffff

/-- Digits gathered so far, and the power of ten they are to be taken with. -/
structure Gathered where
  significand : Nat
  exponent : Int

/-- Takes digits of the whole part. Once a digit no longer fits, it and all later ones only
count. -/
def gatherWhole (full : Bool) (g : Gathered) : List Char → Bool × Gathered
  | [] => (full, g)
  | c :: rest =>
    let next := g.significand * 10 + digitValue c
    if full || largestWord < next then gatherWhole true { g with exponent := g.exponent + 1 } rest
    else gatherWhole false { g with significand := next } rest

/-- Takes digits of the fraction, up to the first that no longer fits. -/
def gatherFraction (g : Gathered) : List Char → Gathered
  | [] => g
  | c :: rest =>
    let next := g.significand * 10 + digitValue c
    if largestWord < next then g
    else gatherFraction ⟨next, g.exponent - 1⟩ rest

/-- An exponent beyond this makes any number zero or too large. -/
def largestExponent : Nat := 0x7fffffff

/-- A number with a fraction or exponent, or too long for a word. -/
def realNumeral? (negative : Bool) (g : Gathered) (exponent : Option (Bool × List Char)) :
    Option Numeral :=
  let magnitude : Option Binary64 :=
    match exponent with
    | none => Binary64.ofDecimal? g.significand g.exponent
    | some (down, digits) =>
      let power := digits.foldl (fun n c => n * 10 + digitValue c) 0
      if largestExponent < power then
        if g.significand != 0 && !down then none else some (.finite false 0 0)
      else
        Binary64.ofDecimal? g.significand
          (if down then g.exponent - (power : Int) else g.exponent + (power : Int))
  magnitude.map fun x => .real (x.withSign negative)

/-- A number without fraction and exponent. Minus zero and what no signed word holds are real. -/
def wholeNumeral (negative : Bool) (n : Nat) : Numeral :=
  if !negative then .whole n
  else if n == 0 || 0x8000000000000000 < n then .real ((Binary64.ofInt n).withSign true)
  else .whole (-(n : Int))

/-- The exponent part, if one starts here: whether it is negative, its digits, and the rest. -/
def scanExponent? (cs : List Char) : Option (Option (Bool × List Char) × List Char) :=
  match cs with
  | e :: rest =>
    if e == 'e' || e == 'E' then
      let (down, rest) :=
        match rest with
        | '+' :: rest => (false, rest)
        | '-' :: rest => (true, rest)
        | rest => (false, rest)
      let digits := rest.takeWhile Char.isDigit
      if digits.isEmpty then none
      else some (some (down, digits), rest.dropWhile Char.isDigit)
    else some (none, cs)
  | [] => some (none, cs)

/-- A number without its sign. -/
def scanMagnitude? (negative : Bool) (cs : List Char) : Option (Numeral × List Char) := do
  let whole := cs.takeWhile Char.isDigit
  let rest := cs.dropWhile Char.isDigit
  if whole.isEmpty || (whole.head? == some '0' && whole.length != 1) then none
  else
    let (full, g) := gatherWhole false ⟨0, 0⟩ whole
    match rest with
    | '.' :: rest =>
      let fraction := rest.takeWhile Char.isDigit
      if fraction.isEmpty then none
      else
        let (exponent, rest) ← scanExponent? (rest.dropWhile Char.isDigit)
        let n ← realNumeral? negative (gatherFraction g fraction) exponent
        return (n, rest)
    | rest =>
      let (exponent, rest) ← scanExponent? rest
      if full || exponent.isSome then
        let n ← realNumeral? negative g exponent
        return (n, rest)
      else return (wholeNumeral negative g.significand, rest)

def scanNumber? (cs : List Char) : Option (Numeral × List Char) :=
  match cs with
  | '-' :: rest => scanMagnitude? true rest
  | cs => scanMagnitude? false cs

/-! ### Tokens -/

def isSpace (c : Char) : Bool := c == ' ' || c == '\n' || c == '\t' || c == '\r'

/-- The token that starts here, and the text after it. -/
def Token.next? (cs : List Char) : Option (Token × List Char) :=
  match cs with
  | '\x7b' :: rest => some (.openBrace, rest)
  | '\x7d' :: rest => some (.closeBrace, rest)
  | '[' :: rest => some (.openBracket, rest)
  | ']' :: rest => some (.closeBracket, rest)
  | ':' :: rest => some (.colon, rest)
  | ',' :: rest => some (.comma, rest)
  | '"' :: rest => (scanString? rest).map fun (s, rest) => (.string (String.ofList s), rest)
  | 'n' :: 'u' :: 'l' :: 'l' :: rest => some (.null, rest)
  | 't' :: 'r' :: 'u' :: 'e' :: rest => some (.bool true, rest)
  | 'f' :: 'a' :: 'l' :: 's' :: 'e' :: rest => some (.bool false, rest)
  | cs => (scanNumber? cs).map fun (n, rest) => (.number n, rest)

/-- All tokens of a text, reading at most `fuel` characters one by one. -/
def Token.scanUpTo? : (fuel : Nat) → List Char → Option (List Token)
  | _, [] => some []
  | 0, _ :: _ => none
  | fuel + 1, c :: rest =>
    if isSpace c then scanUpTo? fuel rest
    else do
      let (token, rest) ← Token.next? (c :: rest)
      let tokens ← scanUpTo? fuel rest
      return token :: tokens

/-- All tokens of a text. -/
def Token.scan? (cs : List Char) : Option (List Token) := Token.scanUpTo? cs.length cs

/-! ### Values -/

mutual

/-- One value from the front of the tokens. -/
def takeValue? : (fuel : Nat) → List Token → Option (Json × List Token)
  | 0, _ => none
  | _, .null :: rest => some (.null, rest)
  | _, .bool b :: rest => some (.bool b, rest)
  | _, .number n :: rest => some (.number n, rest)
  | _, .string s :: rest => some (.string s, rest)
  | _, .openBracket :: .closeBracket :: rest => some (.array [], rest)
  | fuel + 1, .openBracket :: rest => do
    let (items, rest) ← takeItems? fuel rest
    return (.array items, rest)
  | _, .openBrace :: .closeBrace :: rest => some (.object [], rest)
  | fuel + 1, .openBrace :: rest => do
    let (fields, rest) ← takeFields? fuel rest
    return (.object fields, rest)
  | _, _ => none

/-- The items of an array that has some, with its closing bracket. -/
def takeItems? : (fuel : Nat) → List Token → Option (List Json × List Token)
  | 0, _ => none
  | fuel + 1, tokens => do
    let (item, rest) ← takeValue? fuel tokens
    match rest with
    | .comma :: rest => do
      let (items, rest) ← takeItems? fuel rest
      return (item :: items, rest)
    | .closeBracket :: rest => return ([item], rest)
    | _ => none

/-- The fields of an object that has some, with its closing brace. -/
def takeFields? : (fuel : Nat) → List Token → Option (List (String × Json) × List Token)
  | 0, _ => none
  | fuel + 1, .string key :: .colon :: tokens => do
    let (value, rest) ← takeValue? fuel tokens
    match rest with
    | .comma :: rest => do
      let (fields, rest) ← takeFields? fuel rest
      return ((key, value) :: fields, rest)
    | .closeBrace :: rest => return ([(key, value)], rest)
    | _ => none
  | _, _ => none

end

/-- The one value that the tokens spell out. -/
def ofTokens? (tokens : List Token) : Option Json :=
  match takeValue? (2 * tokens.length + 1) tokens with
  | some (j, []) => some j
  | _ => none

/-- The value that a text spells out. -/
def parse? (text : String) : Option Json := do
  let tokens ← Token.scan? text.toList
  ofTokens? tokens

end TreeScribe.Json
