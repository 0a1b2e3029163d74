import TreeScribe.Json.Reader
import TreeScribe.Text.Lines

/-! Configuration text in a part of TOML.

Read are comments, tables, dotted keys, inline tables, one-line strings, whole numbers and truth
values. The format has more that no setting needs and that is refused here: other numbers, dates, arrays,
arrays of tables and strings of several lines. Commands take the reader of configurations as they find it
(`Readers`), so that nothing that is said of them is about this one.

A text is read line by line, since none of these goes on over a line end: each line is
cut into tokens, which are then a table header, an entry or nothing.

No key is set twice (`insert?`), and no table has two headers (`openTable?`). What else may be added
to a table depends on how it came into being (`Origin`). -/
namespace TreeScribe

namespace Toml

/-- How a table came into being. -/
inductive Origin where
  /-- On the way to a table with a header. It may have its own header later. -/
  | implied
  /-- By its header. Only entries below that header are added. -/
  | header
  /-- By dotted keys. Further dotted keys are added. -/
  | dotted
  /-- Between braces. Nothing is added. -/
  | inline
deriving DecidableEq, Repr

end Toml

inductive Toml where
  | string (s : String)
  | whole (n : Int)
  | bool (b : Bool)
  | table (origin : Toml.Origin) (entries : List (String × Toml))
deriving Repr, Inhabited

namespace Toml

mutual

/-- The value as JSON. -/
def toJson : Toml → Json
  | .string s => .string s
  | .whole n => Json.ofInt n
  | .bool b => .bool b
  | .table _ entries => .object (entriesToJson entries)

def entriesToJson : List (String × Toml) → List (String × Json)
  | [] => []
  | entry :: entries => (entry.1, toJson entry.2) :: entriesToJson entries

end

/-! ### Tables -/

abbrev Entries := List (String × Toml)

/-- The entries with another value under a key they have. -/
def update (entries : Entries) (key : String) (value : Toml) : Entries :=
  entries.map fun entry => if entry.1 == key then (key, value) else entry

/-- Whether a dotted key may lead into a table, and end in it. -/
def Origin.takesDotted (o : Origin) (ends : Bool) : Bool :=
  match o with
  | .dotted => true
  | .implied => !ends
  | .header | .inline => false

/-- Sets a value under a dotted key that has none yet. -/
def insert? (entries : Entries) : (key : List String) → Toml → Option Entries
  | [], _ => none
  | [name], value =>
    if (entries.lookup name).isSome then none else some (entries ++ [(name, value)])
  | name :: key, value =>
    match entries.lookup name with
    | none => do
      let inner ← insert? [] key value
      return entries ++ [(name, .table .dotted inner)]
    | some (.table origin inner) =>
      if origin.takesDotted (key.length == 1) then do
        let inner ← insert? inner key value
        return update entries name (.table origin inner)
      else none
    | some _ => none

/-- Opens the table of a header. -/
def openTable? (entries : Entries) : (header : List String) → Option Entries
  | [] => none
  | [name] =>
    match entries.lookup name with
    | none => some (entries ++ [(name, .table .header [])])
    | some (.table .implied inner) => some (update entries name (.table .header inner))
    | some _ => none
  | name :: header =>
    match entries.lookup name with
    | none => do
      let inner ← openTable? [] header
      return entries ++ [(name, .table .implied inner)]
    | some (.table origin inner) =>
      if origin == .inline then none
      else do
        let inner ← openTable? inner header
        return update entries name (.table origin inner)
    | some _ => none

/-- Sets a value under a dotted key below a header. -/
def insertBelow? (entries : Entries) : (header key : List String) → Toml → Option Entries
  | [], key, value => insert? entries key value
  | name :: header, key, value =>
    match entries.lookup name with
    | some (.table origin inner) => do
      let inner ← insertBelow? inner header key value
      return update entries name (.table origin inner)
    | _ => none

/-! ### Tokens -/

inductive Token where
  | openBracket
  | closeBracket
  | openBrace
  | closeBrace
  | dot
  | comma
  | equals
  | word (s : String)
  | quoted (s : String)
deriving DecidableEq, Repr

/-- Characters that no line may hold. -/
def isControl (c : Char) : Bool := (c.toNat < 0x20 && c != '\t') || c.toNat == 0x7F

def isWordChar (c : Char) : Bool := c.isAlphanum || c == '_' || c == '-' || c == '+'

/-- The character that hexadecimal digits name. -/
def scalar? (digits : List Char) : Option Char := do
  let values ← digits.mapM Json.hexDigit?
  let n := values.foldl (fun n d => n * 16 + d) 0
  if n < 0xD800 || (0xE000 ≤ n && n < 0x110000) then some (Char.ofNat n) else none

/-- The character after a backslash in a short escape. -/
def shortEscape? (c : Char) : Option Char :=
  match c with
  | '"' => some '"'
  | '\\' => some '\\'
  | 'b' => some '\x08'
  | 'f' => some '\x0c'
  | 'n' => some '\n'
  | 'r' => some '\r'
  | 't' => some '\t'
  | _ => none

/-- The characters up to the closing quote, and the text after it. -/
def scanBasic? : List Char → Option (List Char × List Char)
  | [] => none
  | '"' :: rest => some ([], rest)
  | '\\' :: 'u' :: a :: b :: c :: d :: rest => do
    let ch ← scalar? [a, b, c, d]
    let (s, rest) ← scanBasic? rest
    return (ch :: s, rest)
  | '\\' :: 'U' :: a :: b :: c :: d :: e :: f :: g :: h :: rest => do
    let ch ← scalar? [a, b, c, d, e, f, g, h]
    let (s, rest) ← scanBasic? rest
    return (ch :: s, rest)
  | '\\' :: c :: rest => do
    let c ← shortEscape? c
    let (s, rest) ← scanBasic? rest
    return (c :: s, rest)
  | c :: rest =>
    if isControl c || c == '\\' then none
    else do
      let (s, rest) ← scanBasic? rest
      return (c :: s, rest)

/-- As `scanBasic?`, between single quotes and without escapes. -/
def scanLiteral? (cs : List Char) : Option (List Char × List Char) :=
  let s := cs.takeWhile (· != '\x27')
  match cs.dropWhile (· != '\x27') with
  | _ :: rest => if s.any isControl then none else some (s, rest)
  | [] => none

/-- The token that starts here, and the text after it. -/
def Token.next? (cs : List Char) : Option (Token × List Char) :=
  match cs with
  | '[' :: rest => some (.openBracket, rest)
  | ']' :: rest => some (.closeBracket, rest)
  | '\x7b' :: rest => some (.openBrace, rest)
  | '\x7d' :: rest => some (.closeBrace, rest)
  | '.' :: rest => some (.dot, rest)
  | ',' :: rest => some (.comma, rest)
  | '=' :: rest => some (.equals, rest)
  | '"' :: rest => (scanBasic? rest).map fun (s, rest) => (.quoted (String.ofList s), rest)
  | '\x27' :: rest => (scanLiteral? rest).map fun (s, rest) => (.quoted (String.ofList s), rest)
  | cs =>
    let s := cs.takeWhile isWordChar
    if s.isEmpty then none else some (.word (String.ofList s), cs.dropWhile isWordChar)

/-- The tokens of a line, reading at most `fuel` characters one by one. -/
def Token.scanUpTo? : (fuel : Nat) → List Char → Option (List Token)
  | _, [] => some []
  | 0, _ :: _ => none
  | fuel + 1, c :: rest =>
    if c == ' ' || c == '\t' then scanUpTo? fuel rest
    else if c == '#' then if rest.any isControl then none else some []
    else do
      let (token, rest) ← Token.next? (c :: rest)
      let tokens ← scanUpTo? fuel rest
      return token :: tokens

/-- The tokens of a line. -/
def Token.scan? (line : List Char) : Option (List Token) := Token.scanUpTo? line.length line

/-! ### Keys and values -/

/-- A quoted name, or a word without a plus sign. -/
def Token.name? : Token → Option String
  | .word s => if s.toList.contains '+' then none else some s
  | .quoted s => some s
  | _ => none

/-- A key from the front of the tokens. -/
def takeKey? : List Token → Option (List String × List Token)
  | [] => none
  | token :: .dot :: rest => do
    let name ← token.name?
    let (key, rest) ← takeKey? rest
    return (name :: key, rest)
  | token :: rest => do
    let name ← token.name?
    return ([name], rest)

/-- Digits of a base, with single underscores between them. -/
def digits? (base : Nat) (cs : List Char) : Option Nat := do
  let groups := Text.splitOn '_' cs
  if groups.any List.isEmpty then none
  else
    let values ← groups.flatten.mapM fun c => (Json.hexDigit? c).filter (· < base)
    return values.foldl (fun n d => n * base + d) 0

/-- Decimal digits without leading zeros. -/
def decimal? (cs : List Char) : Option Nat :=
  if cs.head? == some '0' && cs.length != 1 then none else digits? 10 cs

def whole? (cs : List Char) : Option Int :=
  match cs with
  | '0' :: 'x' :: cs => (digits? 16 cs).map Int.ofNat
  | '0' :: 'o' :: cs => (digits? 8 cs).map Int.ofNat
  | '0' :: 'b' :: cs => (digits? 2 cs).map Int.ofNat
  | '-' :: cs => (decimal? cs).map fun n => -(n : Int)
  | '+' :: cs => (decimal? cs).map Int.ofNat
  | cs => (decimal? cs).map Int.ofNat

/-- The value of a word: a truth value, or a number that fits a signed 64-bit word. -/
def ofWord? (word : String) : Option Toml :=
  match word with
  | "true" => some (.bool true)
  | "false" => some (.bool false)
  | _ => do
    let n ← whole? word.toList
    if -0x8000000000000000 ≤ n && n < 0x8000000000000000 then some (.whole n) else none

mutual

/-- One value from the front of the tokens. -/
def takeValue? : (fuel : Nat) → List Token → Option (Toml × List Token)
  | 0, _ => none
  | _, .quoted s :: rest => some (.string s, rest)
  | _, .word s :: rest => (ofWord? s).map fun value => (value, rest)
  | _, .openBrace :: .closeBrace :: rest => some (.table .inline [], rest)
  | fuel + 1, .openBrace :: rest => do
    let (entries, rest) ← takeEntries? fuel [] rest
    return (.table .inline entries, rest)
  | _, _ => none

/-- The entries of an inline table that has some, with its closing brace. -/
def takeEntries? : (fuel : Nat) → Entries → List Token → Option (Entries × List Token)
  | 0, _, _ => none
  | fuel + 1, entries, tokens => do
    let (key, rest) ← takeKey? tokens
    match rest with
    | .equals :: rest => do
      let (value, rest) ← takeValue? fuel rest
      let entries ← insert? entries key value
      match rest with
      | .comma :: rest => takeEntries? fuel entries rest
      | .closeBrace :: rest => return (entries, rest)
      | _ => none
    | _ => none

end

/-! ### Documents -/

/-- What has been read, and the header that entries now belong to. -/
structure Document where
  entries : Entries := []
  header : List String := []

/-- Reads a line. -/
def Document.add? (d : Document) (tokens : List Token) : Option Document :=
  match tokens with
  | [] => some d
  | .openBracket :: rest => do
    let (header, rest) ← takeKey? rest
    if rest == [.closeBracket] then return ⟨← openTable? d.entries header, header⟩ else none
  | tokens => do
    let (key, rest) ← takeKey? tokens
    match rest with
    | .equals :: rest => do
      let (value, rest) ← takeValue? (2 * rest.length + 1) rest
      if rest.isEmpty then
        return { d with entries := ← insertBelow? d.entries d.header key value }
      else none
    | _ => none

/-- Drops a byte order mark from the front. -/
def dropMark (cs : List Char) : List Char :=
  match cs with
  | '\ufeff' :: rest => rest
  | cs => cs

/-- The table that a text describes. -/
def parse? (text : String) : Option Toml := do
  let lines ← (Text.lines (dropMark text.toList)).mapM Token.scan?
  let d ← lines.foldlM Document.add? {}
  return .table .header d.entries

end Toml
end TreeScribe
