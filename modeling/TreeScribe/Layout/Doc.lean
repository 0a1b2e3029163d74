import TreeScribe.Layout.Buffer
import TreeScribe.Operator
import TreeScribe.Render.Name
import TreeScribe.Scope.Basic

/-! Documents: what has been made of a node, before it is laid out.

A document is a sequence of atoms with what those around it need to know: the kind and type of
its node, whether it is a complete statement, and whether it ends with a jump. Its size and its
number of lines are read off the atoms, so that layout can be decided before anything is
written. Brackets and the signs of operators are atoms of their own, so that what stands at the
top of a document can be told from what stands in brackets, and so are the places where
variables are mentioned and declared. Notes keep what the characters alone do not tell: which
type a name stands for, which node has been written, and where jumps find their way. -/
namespace TreeScribe

/-- What a place in a document is. Nothing is written for it. -/
inductive Note where
  /-- The name of a type comes next. -/
  | typeName (t : TypeRef)
  /-- The line of a label comes next. -/
  | label (target : Target)
  /-- A node ends here. -/
  | written (node : Nat)
  /-- What a loop, the cases of a switch or a lambda hold starts here. -/
  | opens (node : Nat)
  | closes (node : Nat)
deriving DecidableEq, Repr

inductive Atom where
  | token (cls : TokenClass) (text : String)
  /-- The sign of an operator, with the level at which it binds. -/
  | operator (level : Level) (cls : TokenClass) (sign : String)
  /-- A variable, where a node mentions it. -/
  | mention (node : Nat) (name : String)
  /-- What comes next declares the variable of the slot. Nothing is written here. -/
  | declaration (slot : Slot)
  | note (n : Note)
  | opening (bracket : String)
  | closing (bracket : String)
  | newline
  /-- Indents the lines that start from here on. -/
  | indent
  | unindent
deriving DecidableEq, Repr

namespace Atom

/-- The characters that are written, indentation left out. -/
def size : Atom → Nat
  | .token _ s | .operator _ _ s | .mention _ s | .opening s | .closing s => s.length
  | .newline => 1
  | .declaration _ | .note _ | .indent | .unindent => 0

def overhead (format : Format) : Atom → Nat
  | .token cls _ | .operator _ cls _ => format.overhead cls
  | .mention _ _ => format.overhead .variable
  | _ => 0

def write (b : Buffer) : Atom → Buffer
  | .token cls s | .operator _ cls s => b.write cls s
  | .mention _ s => b.write .variable s
  | .declaration _ | .note _ => b
  | .opening s | .closing s => b.write .plain s
  | .newline => b.newline
  | .indent => b.deepen
  | .unindent => b.shallow

end Atom

abbrev Atoms := List Atom

namespace Atoms

/-- A text of a class; the empty text is no atom. -/
def token (cls : TokenClass) (s : String) : Atoms := if s.isEmpty then [] else [.token cls s]

def text (s : String) : Atoms := token .plain s

def space : Atoms := text " "

def keyword (s : String) : Atoms := token .keyword s

def control (s : String) : Atoms := token .control s

def varName (s : String) : Atoms := token .variable s

/-- A variable that a node mentions. -/
def mention (node : Nat) (s : String) : Atoms := if s.isEmpty then [] else [.mention node s]

/-- What declares the variable of a slot. -/
def declaring (slot : Slot) (as : Atoms) : Atoms := [.declaration slot] ++ as

def methodName (s : String) : Atoms := token .methodName s

def operator (level : Level) (sign : String) : Atoms := [.operator level .plain sign]

/-- An operator that is a word. -/
def operatorWord (level : Level) (word : String) : Atoms := [.operator level .keyword word]

/-- Atoms in brackets. -/
def bracketed (opening closing : String) (as : Atoms) : Atoms :=
  [.opening opening] ++ as ++ [.closing closing]

def parens (as : Atoms) : Atoms := bracketed "(" ")" as

def newline : Atoms := [.newline]

/-- Atoms on lines of their own, one step further in. -/
def indented (as : Atoms) : Atoms := [.indent] ++ as ++ [.unindent]

def note (n : Note) : Atoms := [.note n]

def typeName (options : TypeNameOptions) (t : TypeRef) : Atoms :=
  note (.typeName t) ++ (t.segments options).map fun s => .token s.2 s.1

/-- Whether the process stops before all of this is there, at the name of a type. -/
def overflows (options : TypeNameOptions) (as : Atoms) : Bool :=
  as.any fun
    | .note (.typeName t) => t.overflows options
    | _ => false

/-- `name:` -/
def labelLine (target : Target) : Atoms :=
  note (.label target) ++ text target.writtenName ++ text ":"

/-- What a loop, the cases of a switch or a lambda hold. -/
def enclosed (node : Nat) (as : Atoms) : Atoms := note (.opens node) ++ as ++ note (.closes node)

/-- Several sequences with another one between them. -/
def joinedBy (separator : Atoms) : List Atoms → Atoms
  | [] => []
  | [as] => as
  | as :: rest => as ++ separator ++ joinedBy separator rest

/-- Several sequences with a text between them. -/
def separated (separator : String) (parts : List Atoms) : Atoms := joinedBy (text separator) parts

def «when» (condition : Bool) (as : Atoms) : Atoms := if condition then as else []

def write (as : Atoms) (b : Buffer) : Buffer := as.foldl Atom.write b

end Atoms

structure Doc where
  kind : NodeKind
  ty : TypeRef
  atoms : Atoms := []
  /-- A complete statement, which needs no semicolon. -/
  isTerminated : Bool := false
  /-- Ends by leaving the flow around it. -/
  endsWithJump : Bool := false
  /-- Stands for a node that is not written at all, and so has no line. -/
  isAbsent : Bool := false

namespace Doc

-- The zero of a sum is named, so that no other instance is found for it where more is imported.
def size (d : Doc) : Nat := @List.sum Nat _ Zero.ofOfNat0 (d.atoms.map Atom.size)

/-- The characters that the format adds. -/
def formatting (d : Doc) (format : Format) : Nat :=
  @List.sum Nat _ Zero.ofOfNat0 (d.atoms.map (Atom.overhead format))

def lines (d : Doc) : Nat := if d.isAbsent then 0 else d.atoms.count .newline + 1

def isMultiLine (d : Doc) : Bool := 1 < d.lines

def isEmpty (d : Doc) : Bool := d.atoms.isEmpty

/-- A node that is not written. -/
def absent (kind : NodeKind) (ty : TypeRef) : Doc :=
  { kind, ty, isTerminated := true, isAbsent := true }

/-- The document of a node, which ends here if there is any text for it. -/
def noted (node : Nat) (d : Doc) : Doc :=
  if d.isEmpty then d else { d with atoms := d.atoms ++ Atoms.note (.written node) }

def parenthesized (d : Doc) : Doc :=
  { kind := d.kind, ty := d.ty, atoms := Atoms.parens d.atoms }

/-- The statement with a semicolon, unless it is complete. -/
def terminated (d : Doc) : Doc :=
  if d.isTerminated then d
  else
    { kind := d.kind, ty := d.ty, atoms := d.atoms ++ Atoms.text ";", isTerminated := true
      endsWithJump := d.endsWithJump }

/-- The statements in braces on lines of their own. -/
def braced (d : Doc) : Doc :=
  let inner := if d.isEmpty then [] else Atoms.indented (Atoms.newline ++ d.atoms)
  { kind := d.kind, ty := d.ty
    atoms := Atoms.bracketed "\x7b" "\x7d" (inner ++ Atoms.newline)
    isTerminated := true, endsWithJump := !d.isEmpty && d.endsWithJump }

def returned (d : Doc) : Doc :=
  { kind := d.kind, ty := d.ty, atoms := Atoms.control "return" ++ Atoms.space ++ d.atoms
    endsWithJump := true }

/-- The document written to a fresh buffer. -/
def written (d : Doc) (format : Format) (indent : String) : Buffer :=
  d.atoms.write { format, indent }

end Doc
end TreeScribe
