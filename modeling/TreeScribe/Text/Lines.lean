/-! Blanks, trimming, and cutting a text at a character.

`splitOn` gives the pieces between separators, at least one. `lines` reads a text the way an editor shows it: a
final newline opens no further line, and a carriage return directly before a newline belongs to the line end. -/
namespace TreeScribe.Text

/-- White space of any script. -/
def isBlank (c : Char) : Bool :=
  let n := c.toNat
  (0x9 ≤ n && n ≤ 0xD) || n == 0x20 || n == 0x85 || n == 0xA0 || n == 0x1680 ||
    (0x2000 ≤ n && n ≤ 0x200A) || n == 0x2028 || n == 0x2029 || n == 0x202F || n == 0x205F ||
    n == 0x3000

def trimStart (cs : List Char) : List Char := cs.dropWhile isBlank

def trimEnd (cs : List Char) : List Char := (cs.reverse.dropWhile isBlank).reverse

def trim (cs : List Char) : List Char := trimEnd (trimStart cs)

/-- The pieces of a text between the occurrences of `sep`. -/
def splitOn (sep : Char) : List Char → List (List Char)
  | [] => [[]]
  | c :: rest =>
    if c = sep then [] :: splitOn sep rest
    else
      match splitOn sep rest with
      | [] => [[c]]
      | piece :: pieces => (c :: piece) :: pieces

/-- Drops one carriage return from the end. -/
def dropReturn (cs : List Char) : List Char :=
  if cs.getLast? = some '\r' then cs.dropLast else cs

/-- The lines of a text, without their line ends. -/
def lines (cs : List Char) : List (List Char) :=
  let pieces := splitOn '\n' cs
  let full := pieces.dropLast.map dropReturn
  match pieces.getLast? with
  | some last => if last.isEmpty then full else full ++ [last]
  | none => full

end TreeScribe.Text
