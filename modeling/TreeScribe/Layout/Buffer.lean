import TreeScribe.Layout.Token
import TreeScribe.Text.Lines

/-! The buffer that texts are written to.

It keeps the marked-up text and the raw text side by side. A new line is indented by the depth
at the moment it starts, but the indentation is committed only when something is written on the
line, so a line with nothing on it is empty in the end. -/
namespace TreeScribe

structure Buffer where
  format : Format
  /-- One step of indentation. -/
  indent : String
  depth : Nat := 0
  text : String := ""
  raw : String := ""
  /-- The depth of a line on which nothing has been written yet. -/
  margin : Nat := 0
  lineCount : Nat := 1
  /-- Characters on the current line, its indentation included. -/
  column : Nat := 0

namespace Buffer

/-- A text several times over. -/
def repeated (s : String) : Nat → String
  | 0 => ""
  | n + 1 => s ++ repeated s n

/-- Increases the depth from the next line on. -/
def deepen (b : Buffer) : Buffer := { b with depth := b.depth + 1 }

def shallow (b : Buffer) : Buffer := { b with depth := b.depth - 1 }

def newline (b : Buffer) : Buffer :=
  { b with
    text := b.text.push '\n'
    raw := b.raw.push '\n'
    margin := b.depth
    lineCount := b.lineCount + 1
    column := b.indent.length * b.depth }

/-- Writes a text without line breaks. -/
def segment (b : Buffer) (cls : TokenClass) (s : String) : Buffer :=
  if s.isEmpty then b
  else
    { b with
      text := b.text ++ repeated (b.format.encode b.indent) b.margin ++ b.format.mark cls s
      raw := b.raw ++ repeated b.indent b.margin ++ s
      margin := 0
      column := b.column + s.length }

/-- Writes the later lines of a text, each on a new line. -/
def continued (b : Buffer) (cls : TokenClass) : List (List Char) → Buffer
  | [] => b
  | l :: ls => continued (b.newline.segment cls (String.ofList l)) cls ls

/-- Writes a text; its line breaks start new lines. -/
def write (b : Buffer) (cls : TokenClass) (s : String) : Buffer :=
  match Text.splitOn '\n' s.toList with
  | [] => b
  | l :: ls => (b.segment cls (String.ofList l)).continued cls ls

/-- The raw text so far, with the indentation of the line under way. -/
def rawSoFar (b : Buffer) : String := b.raw ++ repeated b.indent b.margin

def isEmpty (b : Buffer) : Bool := b.rawSoFar.isEmpty

end Buffer
end TreeScribe
