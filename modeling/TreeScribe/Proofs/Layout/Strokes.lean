import TreeScribe.Proofs.Layout.Page

/-! What a buffer holds after any operations on it.

Operations are read as strokes: single characters, new lines, and steps in and out. The lines of strokes
are cut at the new lines, those within texts included, and each has the depth of the moment at which it
starts (`Stroke.lines`). The raw text of a buffer is these lines, each indented unless there is nothing
on it (`Buffer.raw_write`). Nor does it matter whether the indentation of a line is kept back until
something is written on the line, or is written at once and taken back (`Eager`). -/
namespace TreeScribe

/-! ### Strokes -/

inductive Stroke where
  | char (c : Char)
  | newline
  | deepen
  | shallow
deriving DecidableEq, Repr

namespace Stroke

def ofChar (c : Char) : Stroke := if c = '\n' then newline else char c

/-- The depth after a stroke. -/
def depth (d : Nat) : Stroke → Nat
  | .deepen => d + 1
  | .shallow => d - 1
  | .char _ | .newline => d

/-- What is written on the line under way, up to the next new line. -/
def content : List Stroke → List Char
  | [] | .newline :: _ => []
  | .char c :: ss => c :: content ss
  | .deepen :: ss | .shallow :: ss => content ss

/-- The lines that new lines start, at the depth of their moment. -/
def linesFrom : (depth : Nat) → List Stroke → List Line
  | _, [] => []
  | d, .newline :: ss => { depth := d, content := content ss } :: linesFrom d ss
  | d, s :: ss => linesFrom (s.depth d) ss

/-- All lines; the first one starts at depth zero. -/
def lines (ss : List Stroke) : List Line := { content := content ss } :: linesFrom 0 ss

end Stroke

def Atom.strokes : Atom → List Stroke
  | .token _ s | .operator _ _ s | .mention _ s | .opening s | .closing s => s.toList.map Stroke.ofChar
  | .newline => [.newline]
  | .indent => [.deepen]
  | .unindent => [.shallow]
  | .declaration _ | .note _ => []

def Atoms.strokes (as : Atoms) : List Stroke := as.flatMap Atom.strokes

/-! ### Pages -/

namespace Page

def stroke (p : Page) : Stroke → Page
  | .char c => p.segment [c]
  | .newline => p.newline
  | .deepen => p.deepen
  | .shallow => p.shallow

theorem push_eq (p : Page) (c : Char) : p.push c = p.stroke (.ofChar c) := by
  unfold push Stroke.ofChar
  split <;> rfl

theorem atom_eq (p : Page) (a : Atom) : p.atom a = a.strokes.foldl stroke p := by
  have hwrite (s : String) : p.write s = (s.toList.map Stroke.ofChar).foldl stroke p := by
    rw [write, List.foldl_map]
    exact List.foldl_ext _ _ _ fun p c _ => push_eq p c
  cases a with
  | token _ s | operator _ _ s | mention _ s | opening s | closing s => exact hwrite s
  | newline | indent | unindent | declaration _ | note _ => rfl

theorem atoms_eq (p : Page) (as : Atoms) : as.foldl atom p = as.strokes.foldl stroke p := by
  induction as generalizing p with
  | nil => rfl
  | cons a as ih =>
    show as.foldl atom (p.atom a) = (a.strokes ++ Atoms.strokes as).foldl stroke p
    rw [ih, atom_eq, List.foldl_append]

/-- Strokes go on with the last line, and then start the lines of their new lines. -/
theorem lines_strokes (p : Page) (ss : List Stroke) :
    (ss.foldl stroke p).lines =
      p.finished ++ { p.last with content := p.last.content ++ Stroke.content ss } ::
        Stroke.linesFrom p.depth ss := by
  induction ss generalizing p with
  | nil => simp [lines, Stroke.content, Stroke.linesFrom]
  | cons s ss ih =>
    rw [List.foldl_cons, ih]
    cases s with
    | char c => simp [stroke, segment, Stroke.content, Stroke.linesFrom, Stroke.depth]
    | newline => simp [stroke, newline, Stroke.content, Stroke.linesFrom]
    | deepen => rfl
    | shallow => rfl

/-- The characters of the line under way, its indentation included. -/
def column (indent : String) (p : Page) : Nat := indent.length * p.last.depth + p.last.content.length

end Page

/-! ### Columns -/

namespace Buffer.Shows

variable {indent : String} {b : Buffer} {p : Page}

theorem column_newline (h : Shows indent b p) : b.newline.column = p.newline.column indent := by
  show b.indent.length * b.depth = indent.length * p.depth + 0
  rw [h.unit, h.depth, Nat.add_zero]

theorem column_segment (hcolumn : b.column = p.column indent) (cls : TokenClass) (cs : List Char) :
    (b.segment cls (String.ofList cs)).column = (p.segment cs).column indent := by
  have hlength : b.column + cs.length = (p.segment cs).column indent := by
    rw [hcolumn, Page.column, Page.column, Page.segment, List.length_append, Nat.add_assoc]
  unfold Buffer.segment
  split
  next hempty =>
    obtain rfl : cs = [] := by simpa using hempty
    exact hlength
  · show b.column + (String.ofList cs).length = _
    rw [String.length_ofList, hlength]

theorem column_pieces (h : Shows indent b p) (hcolumn : b.column = p.column indent) (cls : TokenClass)
    (ls : List (List Char)) :
    (b.continued cls ls).column =
      (ls.foldl (fun p l => p.newline.segment l) p).column indent := by
  induction ls generalizing b p with
  | nil => exact hcolumn
  | cons l ls ih => exact ih (h.newline.segment cls l) (column_segment h.column_newline cls l)

theorem column_write (h : Shows indent b p) (hcolumn : b.column = p.column indent) (cls : TokenClass)
    (s : String) : (b.write cls s).column = (p.write s).column indent := by
  unfold Buffer.write
  split
  next hnil => exact absurd hnil (Text.splitOn_ne_nil _ _)
  next l ls hsplit =>
    rw [Page.write, Page.push_splitOn hsplit]
    exact (h.segment cls l).column_pieces (column_segment hcolumn cls l) cls ls

theorem column_atoms (h : Shows indent b p) (hcolumn : b.column = p.column indent) (as : Atoms) :
    (as.write b).column = (as.foldl Page.atom p).column indent := by
  induction as generalizing b p with
  | nil => exact hcolumn
  | cons a as ih =>
    refine ih (h.atom a) ?_
    cases a with
    | token cls s | operator _ cls s => exact h.column_write hcolumn cls s
    | mention _ s | opening s | closing s => exact h.column_write hcolumn _ s
    | newline => exact h.column_newline
    | declaration _ | note _ | indent | unindent => exact hcolumn

end Buffer.Shows

/-! ### Indenting at once -/

/-- A buffer that indents a line as soon as it starts, and takes the indentation back when nothing else
has been written on the line by its end. -/
structure Eager where
  format : Format
  indent : String
  depth : Nat := 0
  text : List Char := []
  raw : List Char := []
  /-- The lengths of the indentation in both texts, while the line under way holds nothing else. -/
  pending : Option (Nat × Nat) := none
  lineCount : Nat := 1
  column : Nat := 0

namespace Eager

/-- Takes the indentation of an otherwise empty line back. -/
def trimmed (e : Eager) : Eager :=
  match e.pending with
  | some (text, raw) =>
    { e with
      text := e.text.take (e.text.length - text)
      raw := e.raw.take (e.raw.length - raw)
      pending := none }
  | none => e

def newline (e : Eager) : Eager :=
  let broken : Eager :=
    { e.trimmed with
      text := e.trimmed.text ++ ['\n']
      raw := e.trimmed.raw ++ ['\n']
      lineCount := e.lineCount + 1
      column := 0 }
  if e.depth = 0 then broken
  else
    let marked := (Buffer.repeated (e.format.encode e.indent) e.depth).toList
    let plain := (Buffer.repeated e.indent e.depth).toList
    { broken with
      text := broken.text ++ marked
      raw := broken.raw ++ plain
      column := e.indent.length * e.depth
      pending := some (marked.length, plain.length) }

/-- Writes a text without line breaks. -/
def segment (e : Eager) (cls : TokenClass) (cs : List Char) : Eager :=
  if cs = [] then e
  else
    { e with
      text := e.text ++ (e.format.mark cls (String.ofList cs)).toList
      raw := e.raw ++ cs
      pending := none
      column := e.column + cs.length }

def write (e : Eager) (cls : TokenClass) (s : String) : Eager :=
  match Text.splitOn '\n' s.toList with
  | [] => e
  | l :: ls => ls.foldl (fun e l => e.newline.segment cls l) (e.segment cls l)

def atom (e : Eager) : Atom → Eager
  | .token cls s | .operator _ cls s => e.write cls s
  | .mention _ s => e.write .variable s
  | .opening s | .closing s => e.write .plain s
  | .newline => e.newline
  | .indent => { e with depth := e.depth + 1 }
  | .unindent => { e with depth := e.depth - 1 }
  | .declaration _ | .note _ => e

/-- Both texts in the end. -/
def finish (e : Eager) : List Char × List Char := (e.trimmed.text, e.trimmed.raw)

/-- What has been written at once is what a buffer has written and what it keeps back. -/
structure Mirrors (e : Eager) (b : Buffer) : Prop where
  format : e.format = b.format
  indent : e.indent = b.indent
  depth : e.depth = b.depth
  text : e.text = b.text.toList ++ (Buffer.repeated (b.format.encode b.indent) b.margin).toList
  raw : e.raw = b.raw.toList ++ (Buffer.repeated b.indent b.margin).toList
  pending : e.pending =
    if b.margin = 0 then none
    else some ((Buffer.repeated (b.format.encode b.indent) b.margin).toList.length,
      (Buffer.repeated b.indent b.margin).toList.length)
  lineCount : e.lineCount = b.lineCount
  column : e.column = b.column

namespace Mirrors

variable {e : Eager} {b : Buffer}

theorem start (format : Format) (indent : String) :
    Mirrors { format, indent } { format, indent } where
  format := rfl
  indent := rfl
  depth := rfl
  text := rfl
  raw := rfl
  pending := rfl
  lineCount := rfl
  column := rfl

/-- Without its pending indentation the text is what the buffer has written. -/
theorem trimmed_eq (h : Mirrors e b) :
    e.trimmed = { e with text := b.text.toList, raw := b.raw.toList, pending := none } := by
  obtain ⟨format, indent, depth, text, raw, pending, lineCount, column⟩ := e
  obtain rfl := h.text
  obtain rfl := h.raw
  obtain rfl := h.pending
  by_cases hmargin : b.margin = 0
  · simp [trimmed, hmargin, Buffer.repeated]
  · simp [trimmed, hmargin]

theorem finish_eq (h : Mirrors e b) : e.finish = (b.text.toList, b.raw.toList) := by
  rw [finish, h.trimmed_eq]

theorem newline (h : Mirrors e b) : Mirrors e.newline b.newline := by
  have hdepth : b.newline.margin = e.depth := h.depth.symm
  unfold Eager.newline
  rw [h.trimmed_eq]
  split
  next hzero =>
    have hmargin : b.newline.margin = 0 := hdepth.trans hzero
    constructor
    · exact h.format
    · exact h.indent
    · exact h.depth
    · rw [hmargin]
      simp [Buffer.newline, Buffer.repeated]
    · rw [hmargin]
      simp [Buffer.newline, Buffer.repeated]
    · rw [hdepth, if_pos hzero]
    · exact congrArg (· + 1) h.lineCount
    · show 0 = b.indent.length * b.depth
      rw [← h.depth, hzero, Nat.mul_zero]
  next hzero =>
    constructor
    · exact h.format
    · exact h.indent
    · exact h.depth
    · simp [h.format, h.indent, h.depth, Buffer.newline]
    · simp [h.indent, h.depth, Buffer.newline]
    · rw [hdepth, if_neg hzero, h.format, h.indent]
      rfl
    · exact congrArg (· + 1) h.lineCount
    · show e.indent.length * e.depth = b.indent.length * b.depth
      rw [h.indent, h.depth]

theorem segment (h : Mirrors e b) (cls : TokenClass) (cs : List Char) :
    Mirrors (e.segment cls cs) (b.segment cls (String.ofList cs)) := by
  by_cases hcs : cs = []
  · subst hcs
    simpa [Eager.segment, Buffer.segment] using h
  have hne : ¬(String.ofList cs).isEmpty = true := by
    rwa [String.isEmpty_iff, ← String.toList_eq_nil_iff, String.toList_ofList]
  rw [Eager.segment, if_neg hcs, Buffer.segment, if_neg hne]
  constructor
  · exact h.format
  · exact h.indent
  · exact h.depth
  · simp [h.text, h.format, Buffer.repeated]
  · simp [h.raw, Buffer.repeated]
  · rfl
  · exact h.lineCount
  · show e.column + cs.length = b.column + (String.ofList cs).length
    rw [h.column, String.length_ofList]

theorem pieces (h : Mirrors e b) (cls : TokenClass) (ls : List (List Char)) :
    Mirrors (ls.foldl (fun e l => e.newline.segment cls l) e) (b.continued cls ls) := by
  induction ls generalizing e b with
  | nil => exact h
  | cons l ls ih => exact ih (h.newline.segment cls l)

theorem write (h : Mirrors e b) (cls : TokenClass) (s : String) :
    Mirrors (e.write cls s) (b.write cls s) := by
  unfold Eager.write Buffer.write
  cases Text.splitOn '\n' s.toList with
  | nil => exact h
  | cons l ls => exact (h.segment cls l).pieces cls ls

theorem atom (h : Mirrors e b) (a : Atom) : Mirrors (e.atom a) (a.write b) := by
  cases a with
  | token cls s | operator _ cls s => exact h.write cls s
  | mention _ s | opening s | closing s => exact h.write _ s
  | declaration _ | note _ => exact h
  | newline => exact h.newline
  | indent => exact { h with depth := congrArg (· + 1) h.depth }
  | unindent => exact { h with depth := congrArg (· - 1) h.depth }

theorem atoms (h : Mirrors e b) (as : Atoms) : Mirrors (as.foldl Eager.atom e) (as.write b) := by
  induction as generalizing e b with
  | nil => exact h
  | cons a as ih => exact ih (h.atom a)

end Mirrors
end Eager

/-- **The raw text of a buffer is its lines**, each one indented by the depth at its start unless there
is nothing on it, after whatever has been written, in whatever format. The buffer has counted the lines
and the characters of the last one; and to indent each line at once leaves the same texts. -/
theorem Buffer.raw_write (format : Format) (indent : String) (as : Atoms) :
    let b := as.write { format, indent }
    let e := as.foldl Eager.atom { format, indent }
    let lines := Stroke.lines as.strokes
    b.raw.toList = ['\n'].intercalate (lines.map (Line.indented indent)) ∧
      (∀ l ∈ lines, '\n' ∉ l.content) ∧
      b.lineCount = lines.length ∧
      (∃ last ∈ lines.getLast?, b.column = indent.length * last.depth + last.content.length) ∧
      e.finish = (b.text.toList, b.raw.toList) ∧ e.raw = b.rawSoFar.toList ∧
      e.lineCount = b.lineCount ∧ e.column = b.column := by
  intro b e lines
  have hstart := Shows.start format indent
  have hshows : Shows indent b (as.foldl Page.atom {}) := hstart.atoms as
  have hlines : (as.foldl Page.atom {}).lines = lines := by
    rw [Page.atoms_eq, Page.lines_strokes]
    rfl
  have hproper : (as.foldl Page.atom {}).IsProper :=
    Page.IsProper.atoms ⟨by simp [Page.lines], fun _ => rfl⟩ as
  have hmirrors : e.Mirrors b := (Eager.Mirrors.start format indent).atoms as
  refine ⟨?_, ?_, ?_, ⟨(as.foldl Page.atom {}).last, ?_, ?_⟩, hmirrors.finish_eq, ?_,
    hmirrors.lineCount, hmirrors.column⟩
  · rw [hshows.raw, Page.text, hlines]
  · rw [← hlines]
    exact hproper.split
  · rw [hshows.lineCount, hlines]
  · rw [← hlines, Page.lines, List.getLast?_concat]
    rfl
  · exact hstart.column_atoms (by simp [Page.column]) as
  · rw [hmirrors.raw, rawSoFar, String.toList_append]

/-- A blank line is not indented, and neither is what comes after the last line break. -/
example :
    (Atoms.write [.indent, .token .plain "a;", .newline, .newline, .token .plain "b;", .newline]
      { format := .plain, indent := "\t" }).raw =
      "a;\n\n\tb;\n" := by
  decide

end TreeScribe
