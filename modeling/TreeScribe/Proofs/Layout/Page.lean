import Mathlib.Data.List.Basic
import TreeScribe.Layout.Doc
import TreeScribe.Proofs.Text.Pieces

/-! The lines of a text, before they are indented.

A page holds what has been written line by line, each line with the depth at which it started. It
knows neither a format nor what one step of indentation is. A buffer that is written to shows a
page at every moment (`Shows.write`, `Shows.atoms`), so its raw text is the lines of the page, each
indented in the buffer's way, and what differs between two buffers with the same page is the
indentation only. -/
namespace TreeScribe

/-- What holds of the empty list and of lists in a row holds of lists with a separator between them. -/
theorem intercalate_induction {α : Type} {P : List α → Prop} (hnil : P [])
    (happend : ∀ xs ys, P xs → P ys → P (xs ++ ys)) {separator : List α} (hs : P separator)
    {parts : List (List α)} (h : ∀ xs ∈ parts, P xs) : P (separator.intercalate parts) := by
  induction parts with
  | nil => exact hnil
  | cons xs parts ih =>
    have hxs := h xs (List.mem_cons_self ..)
    by_cases hrest : parts = []
    · rwa [hrest, List.intercalate_singleton]
    · rw [List.intercalate_cons_of_ne_nil hrest]
      have hparts := ih fun ys hy => h ys (List.mem_cons_of_mem _ hy)
      exact happend _ _ (happend _ _ hxs hs) hparts

/-- The characters that are written. -/
def Atom.chars : Atom → List Char
  | .token _ s | .operator _ _ s | .mention _ s | .opening s | .closing s => s.toList
  | .newline => ['\n']
  | .declaration _ | .note _ | .indent | .unindent => []

@[simp] theorem Atoms.chars_token (cls : TokenClass) (s : String) :
    (Atoms.token cls s).flatMap Atom.chars = s.toList := by
  unfold Atoms.token
  split
  next hempty => simpa using (String.isEmpty_iff.mp hempty).symm
  · simp [Atom.chars]

structure Line where
  /-- The steps of indentation. -/
  depth : Nat := 0
  content : List Char := []
deriving DecidableEq, Repr

/-- The line with its indentation. A line with nothing on it is not indented. -/
def Line.indented (indent : String) (l : Line) : List Char :=
  if l.content = [] then [] else (Buffer.repeated indent l.depth).toList ++ l.content

structure Page where
  /-- The depth at which the next line starts. -/
  depth : Nat := 0
  finished : List Line := []
  last : Line := {}

namespace Page

def lines (p : Page) : List Line := p.finished ++ [p.last]

def deepen (p : Page) : Page := { p with depth := p.depth + 1 }

def shallow (p : Page) : Page := { p with depth := p.depth - 1 }

def newline (p : Page) : Page :=
  { p with finished := p.finished ++ [p.last], last := { depth := p.depth } }

/-- Writes on the last line. -/
def segment (p : Page) (cs : List Char) : Page :=
  { p with last := { p.last with content := p.last.content ++ cs } }

def push (p : Page) (c : Char) : Page := if c = '\n' then p.newline else p.segment [c]

/-- Writes a text; its line breaks start new lines. -/
def write (p : Page) (s : String) : Page := s.toList.foldl push p

def atom (p : Page) : Atom → Page
  | .token _ s | .operator _ _ s | .mention _ s | .opening s | .closing s => p.write s
  | .newline => p.newline
  | .indent => p.deepen
  | .unindent => p.shallow
  | .declaration _ | .note _ => p

end Page

/-- The lines of a document. -/
def Doc.page (d : Doc) : Page := d.atoms.foldl Page.atom {}

/-! ### What a page is like -/

namespace Page

/-- No line break stands within a line, and the first line is not indented. -/
structure IsProper (p : Page) : Prop where
  split : ∀ l ∈ p.lines, '\n' ∉ l.content
  first : p.finished = [] → p.last.depth = 0

namespace IsProper

variable {p : Page}

theorem newline (h : p.IsProper) : p.newline.IsProper where
  split l hl := by
    rw [Page.newline, lines, List.mem_append] at hl
    obtain hl | hl := hl
    · exact h.split l hl
    · rw [List.mem_singleton.mp hl]
      exact List.not_mem_nil
  first hnil := absurd hnil (by simp [Page.newline])

theorem segment (h : p.IsProper) {cs : List Char} (hcs : '\n' ∉ cs) : (p.segment cs).IsProper where
  split l hl := by
    rw [Page.segment, lines, List.mem_append] at hl
    obtain hl | hl := hl
    · exact h.split l (List.mem_append_left _ hl)
    · have hlast : '\n' ∉ p.last.content :=
        h.split p.last (List.mem_append_right _ (List.mem_singleton_self _))
      rw [List.mem_singleton.mp hl]
      simp [hlast, hcs]
  first := h.first

theorem push (h : p.IsProper) (c : Char) : (p.push c).IsProper := by
  unfold Page.push
  split
  · exact h.newline
  · next hc => exact h.segment (by simpa using Ne.symm hc)

theorem write (h : p.IsProper) (s : String) : (p.write s).IsProper := by
  unfold Page.write
  generalize s.toList = cs
  induction cs generalizing p with
  | nil => exact h
  | cons c cs ih => exact ih (h.push c)

theorem atom (h : p.IsProper) (a : Atom) : (p.atom a).IsProper := by
  cases a with
  | token _ s | operator _ _ s | mention _ s | opening s | closing s => exact h.write s
  | newline => exact h.newline
  | declaration _ | note _ => exact h
  | indent | unindent => exact ⟨h.split, h.first⟩

theorem atoms (h : p.IsProper) (as : Atoms) : (as.foldl Page.atom p).IsProper := by
  induction as generalizing p with
  | nil => exact h
  | cons a as ih => exact ih (h.atom a)

end IsProper
end Page

theorem Doc.isProper_page (d : Doc) : d.page.IsProper := by
  refine Page.IsProper.atoms ⟨fun l hl => ?_, fun _ => rfl⟩ d.atoms
  obtain rfl : l = {} := List.mem_singleton.mp hl
  exact List.not_mem_nil

/-! ### Buffers show pages -/

theorem intercalate_concat {α : Type} (separator : List α) (xs : List (List α)) (x : List α) :
    separator.intercalate (xs ++ [x]) = xs.flatMap (· ++ separator) ++ x := by
  induction xs with
  | nil => simp
  | cons y ys ih =>
    rw [List.cons_append, List.intercalate_cons_of_ne_nil (by simp), ih]
    simp

/-- The page as a text. -/
def Page.text (indent : String) (p : Page) : List Char :=
  ['\n'].intercalate (p.lines.map (Line.indented indent))

namespace Page

theorem text_eq (indent : String) (p : Page) :
    p.text indent =
      (p.finished.map (Line.indented indent)).flatMap (· ++ ['\n']) ++ p.last.indented indent := by
  rw [text, lines, List.map_append, List.map_singleton, intercalate_concat]

/-- A text is written piece by piece, with a new line between the pieces. -/
theorem push_splitOn {p : Page} {cs l : List Char} {ls : List (List Char)}
    (h : Text.splitOn '\n' cs = l :: ls) :
    cs.foldl push p = ls.foldl (fun p l => p.newline.segment l) (p.segment l) := by
  induction cs generalizing p l ls with
  | nil =>
    obtain ⟨rfl, rfl⟩ : [] = l ∧ [] = ls := by simpa [Text.splitOn] using h
    simp [segment]
  | cons c cs ih =>
    rw [List.foldl_cons, push]
    unfold Text.splitOn at h
    obtain ⟨piece, pieces, hrest⟩ := List.exists_cons_of_ne_nil (Text.splitOn_ne_nil '\n' cs)
    rw [ih hrest]
    split at h
    · next hc =>
      obtain ⟨rfl, rfl⟩ : [] = l ∧ piece :: pieces = ls := by simpa [hrest] using h
      simp [hc, segment, List.foldl_cons]
    · next hc =>
      obtain ⟨rfl, rfl⟩ : c :: piece = l ∧ pieces = ls := by simpa [hrest] using h
      simp [hc, segment]

theorem text_newline (indent : String) (p : Page) :
    p.newline.text indent = p.text indent ++ ['\n'] := by
  simp [text_eq, newline, Line.indented]

theorem text_segment (indent : String) (p : Page) {cs : List Char} (hcs : cs ≠ []) :
    (p.segment cs).text indent =
      p.text indent ++
        (if p.last.content = [] then (Buffer.repeated indent p.last.depth).toList else []) ++ cs := by
  by_cases hlast : p.last.content = []
  · simp [text_eq, segment, Line.indented, hlast, hcs]
  · simp [text_eq, segment, Line.indented, hlast]

end Page

namespace Buffer

/-- The page is what a buffer holds that indents its lines in some way. -/
structure Shows (indent : String) (b : Buffer) (p : Page) : Prop where
  unit : b.indent = indent
  depth : b.depth = p.depth
  raw : b.raw.toList = p.text indent
  /-- The indentation of a line with nothing on it is still to be written. -/
  margin : b.margin = if p.last.content = [] then p.last.depth else 0
  lineCount : b.lineCount = p.lines.length

namespace Shows

variable {indent : String} {b : Buffer} {p : Page}

theorem start (format : Format) (indent : String) : Shows indent { format, indent } {} where
  unit := rfl
  depth := rfl
  raw := by simp [Page.text_eq, Line.indented]
  margin := rfl
  lineCount := rfl

theorem deepen (h : Shows indent b p) : Shows indent b.deepen p.deepen :=
  { h with depth := congrArg (· + 1) h.depth }

theorem shallow (h : Shows indent b p) : Shows indent b.shallow p.shallow :=
  { h with depth := congrArg (· - 1) h.depth }

theorem newline (h : Shows indent b p) : Shows indent b.newline p.newline where
  unit := h.unit
  depth := h.depth
  raw := by
    show (b.raw.push '\n').toList = p.newline.text indent
    rw [String.toList_push, h.raw, Page.text_newline]
  margin := h.depth
  lineCount := by
    show b.lineCount + 1 = p.newline.lines.length
    rw [h.lineCount]
    simp [Page.newline, Page.lines]

theorem segment (h : Shows indent b p) (cls : TokenClass) (cs : List Char) :
    Shows indent (b.segment cls (String.ofList cs)) (p.segment cs) := by
  by_cases hcs : cs = []
  · subst hcs
    simpa [Buffer.segment, Page.segment] using h
  have hne : ¬(String.ofList cs).isEmpty = true := by
    rwa [String.isEmpty_iff, ← String.toList_eq_nil_iff, String.toList_ofList]
  rw [Buffer.segment, if_neg hne]
  constructor
  · exact h.unit
  · exact h.depth
  · show (b.raw ++ repeated b.indent b.margin ++ String.ofList cs).toList = _
    rw [String.toList_append, String.toList_append, h.raw, Page.text_segment _ _ hcs, h.unit,
      h.margin, String.toList_ofList]
    split <;> rfl
  · show 0 = if p.last.content ++ cs = [] then p.last.depth else 0
    rw [if_neg (by simp [hcs])]
  · show b.lineCount = (p.segment cs).lines.length
    rw [h.lineCount]
    simp [Page.segment, Page.lines]

/-- Writing the pieces of a text, with a new line between them, is writing the text. -/
theorem pieces (h : Shows indent b p) (cls : TokenClass) (ls : List (List Char)) :
    Shows indent (b.continued cls ls) (ls.foldl (fun p l => p.newline.segment l) p) := by
  induction ls generalizing b p with
  | nil => exact h
  | cons l ls ih => exact ih (h.newline.segment cls l)

theorem write (h : Shows indent b p) (cls : TokenClass) (s : String) :
    Shows indent (b.write cls s) (p.write s) := by
  unfold Buffer.write
  split
  · next hnil => exact absurd hnil (Text.splitOn_ne_nil _ _)
  · next l ls hsplit =>
    rw [Page.write, Page.push_splitOn hsplit]
    exact (h.segment cls l).pieces cls ls

theorem atom (h : Shows indent b p) (a : Atom) : Shows indent (a.write b) (p.atom a) := by
  cases a with
  | token cls s | operator _ cls s => exact h.write cls s
  | mention _ s | opening s | closing s => exact h.write _ s
  | declaration _ | note _ => exact h
  | newline => exact h.newline
  | indent => exact h.deepen
  | unindent => exact h.shallow

theorem atoms (h : Shows indent b p) (as : Atoms) :
    Shows indent (as.write b) (as.foldl Page.atom p) := by
  induction as generalizing b p with
  | nil => exact h
  | cons a as ih => exact ih (h.atom a)

/-- Nothing has been written if there is only the first line, with nothing on it. -/
theorem isEmpty_iff (h : Shows indent b p) (hp : p.IsProper) :
    b.isEmpty = true ↔ p.lines = [{}] := by
  rw [Buffer.isEmpty, rawSoFar, String.isEmpty_iff, ← String.toList_eq_nil_iff,
    String.toList_append, h.raw, h.margin, h.unit, List.append_eq_nil_iff]
  obtain ⟨depth, finished, ⟨lastDepth, content⟩⟩ := p
  cases finished with
  | cons l ls => simp [Page.text_eq, Page.lines]
  | nil =>
    obtain rfl : lastDepth = 0 := hp.first rfl
    by_cases hcontent : content = []
    · simp [Page.text_eq, Page.lines, Line.indented, hcontent, repeated]
    · simp [Page.text_eq, Page.lines, Line.indented, hcontent]

end Shows
end Buffer

/-- **A written document shows its page**, whatever the format and the indentation. -/
theorem Doc.shows_written (d : Doc) (format : Format) (indent : String) :
    (d.written format indent).Shows indent d.page :=
  (Buffer.Shows.start format indent).atoms d.atoms

end TreeScribe
