import Mathlib.Algebra.BigOperators.Group.List.Basic
import Mathlib.Algebra.GroupWithZero.Nat
import Mathlib.Algebra.Order.Group.Nat
import TreeScribe.Proofs.Layout.Page

/-! What is known of a document before it is written.

The size of a document is the length of its raw text where nothing is indented (`Doc.length_raw`), and
its lines are those of the buffer it is written to unless there are line breaks within its texts
(`Doc.lineCount_written`). A document that is put together of fragments, whose sizes and lines are
added up one by one, has the same metrics however its atoms are grouped: as long as no fragment is empty,
its lines can be counted from its first one on (`Doc.metrics_ofFragments`). -/
namespace TreeScribe

/-! ### Sizes -/

theorem Atom.length_chars (a : Atom) : a.chars.length = a.size := by
  cases a with
  | token _ s | operator _ _ s | mention _ s | opening s | closing s => exact String.length_toList
  | newline | declaration _ | note _ | indent | unindent => rfl

theorem Atoms.length_chars (as : Atoms) : (as.flatMap Atom.chars).length = (as.map Atom.size).sum := by
  rw [List.length_flatMap]
  exact congrArg List.sum (List.map_congr_left fun a _ => a.length_chars)

theorem Buffer.repeated_empty (n : Nat) : repeated "" n = "" := by
  induction n with
  | zero => rfl
  | succ n ih => rw [repeated, ih, String.append_empty]

namespace Page

/-- Without indentation all that is written stands in the text, and nothing else. -/
theorem text_push (p : Page) (c : Char) : (p.push c).text "" = p.text "" ++ [c] := by
  unfold push
  split
  next hc => rw [text_newline, hc]
  · rw [text_segment _ _ (List.cons_ne_nil c []), Buffer.repeated_empty]
    simp

theorem text_write (p : Page) (s : String) : (p.write s).text "" = p.text "" ++ s.toList := by
  unfold write
  generalize s.toList = cs
  induction cs generalizing p with
  | nil => exact (List.append_nil _).symm
  | cons c cs ih => rw [List.foldl_cons, ih, text_push, List.append_assoc, List.singleton_append]

theorem text_atom (p : Page) (a : Atom) : (p.atom a).text "" = p.text "" ++ a.chars := by
  cases a with
  | token _ s | operator _ _ s | mention _ s | opening s | closing s => exact p.text_write s
  | newline => exact text_newline "" p
  | declaration _ | note _ | indent | unindent => exact (List.append_nil _).symm

theorem text_atoms (p : Page) (as : Atoms) : (as.foldl atom p).text "" = p.text "" ++ as.flatMap Atom.chars := by
  induction as generalizing p with
  | nil => exact (List.append_nil _).symm
  | cons a as ih => rw [List.foldl_cons, ih, text_atom, List.append_assoc, List.flatMap_cons]

end Page

/-- **The size of a document is the length of its text**, indentation left out. -/
theorem Doc.length_raw (d : Doc) (format : Format) : (d.written format "").raw.length = d.size := by
  have hstart : ({} : Page).text "" = [] := by simp [Page.text_eq, Line.indented]
  rw [← String.length_toList, (d.shows_written format "").raw, Doc.page, Page.text_atoms, hstart,
    List.nil_append, Atoms.length_chars]
  rfl

/-! ### Lines -/

namespace Page

theorem length_lines_push (p : Page) (c : Char) : (p.push c).lines.length = p.lines.length + [c].count '\n' := by
  unfold push
  split
  next hc => simp [newline, lines, hc]
  next hc => simp [segment, lines, hc]

theorem length_lines_write (p : Page) (s : String) :
    (p.write s).lines.length = p.lines.length + s.toList.count '\n' := by
  unfold write
  generalize s.toList = cs
  induction cs generalizing p with
  | nil => rfl
  | cons c cs ih =>
    rw [List.foldl_cons, ih, length_lines_push, Nat.add_assoc, ← List.count_append, List.singleton_append]

theorem length_lines_atom (p : Page) (a : Atom) :
    (p.atom a).lines.length = p.lines.length + a.chars.count '\n' := by
  cases a with
  | token _ s | operator _ _ s | mention _ s | opening s | closing s => exact p.length_lines_write s
  | newline => simp [atom, newline, lines, Atom.chars]
  | declaration _ | note _ | indent | unindent => rfl

theorem length_lines_atoms (p : Page) (as : Atoms) :
    (as.foldl atom p).lines.length = p.lines.length + (as.flatMap Atom.chars).count '\n' := by
  induction as generalizing p with
  | nil => rfl
  | cons a as ih =>
    rw [List.foldl_cons, ih, length_lines_atom, Nat.add_assoc, ← List.count_append, List.flatMap_cons]

end Page

/-- The lines of the buffer are the line breaks that were written, wherever they come from. -/
theorem Doc.lineCount_eq (d : Doc) (format : Format) (indent : String) :
    (d.written format indent).lineCount = (d.atoms.flatMap Atom.chars).count '\n' + 1 := by
  rw [(d.shows_written format indent).lineCount, Doc.page, Page.length_lines_atoms, Nat.add_comm]
  rfl

/-- No text has line breaks of its own. -/
def Doc.HasPlainLines (d : Doc) : Prop := ∀ a ∈ d.atoms, a ≠ .newline → '\n' ∉ a.chars

instance (d : Doc) : Decidable d.HasPlainLines :=
  inferInstanceAs (Decidable (∀ a ∈ d.atoms, a ≠ .newline → '\n' ∉ a.chars))

theorem Atoms.count_newline {as : Atoms} (h : ∀ a ∈ as, a ≠ .newline → '\n' ∉ a.chars) :
    (as.flatMap Atom.chars).count '\n' = as.count .newline := by
  induction as with
  | nil => rfl
  | cons a as ih =>
    obtain ⟨ha, has⟩ := List.forall_mem_cons.mp h
    rw [List.flatMap_cons, List.count_append, ih has, List.count_cons, Nat.add_comm]
    by_cases hnewline : a = .newline
    · subst hnewline
      rfl
    · rw [List.count_eq_zero.mpr (ha hnewline), if_neg (by simpa using hnewline)]

/-- **The lines of a document are those of the buffer it is written to**, unless its texts break lines. -/
theorem Doc.lineCount_written {d : Doc} (hwritten : d.isAbsent = false) (h : d.HasPlainLines) (format : Format)
    (indent : String) : (d.written format indent).lineCount = d.lines := by
  rw [d.lineCount_eq, Atoms.count_newline h, Doc.lines, if_neg (by simp [hwritten])]

/-! ### Metrics of what is put together -/

/-- What a document and its parts are measured by. -/
structure Metrics where
  size : Nat := 0
  formatting : Nat := 0
  lines : Nat
deriving DecidableEq, Repr

/-- What a document is put together of. -/
inductive Fragment where
  | atom (a : Atom)
  | nested (fragments : List Fragment)
  /-- What stands for a node that is not written, and has no line. -/
  | absent

namespace Metrics

/-- What is nested starts on the line under way, so that one of its lines is not counted; there must be
one. -/
def addNested? (m nested : Metrics) : Option Metrics :=
  if nested.lines = 0 then none
  else some ⟨m.size + nested.size, m.formatting + nested.formatting, m.lines + (nested.lines - 1)⟩

/-- With the atoms that come next. -/
def after (m : Metrics) (format : Format) (as : Atoms) : Metrics :=
  ⟨m.size + (as.map Atom.size).sum, m.formatting + (as.map (Atom.overhead format)).sum,
    m.lines + as.count .newline⟩

mutual

def add? (format : Format) (m : Metrics) : Fragment → Option Metrics
  | .atom a => some (m.after format [a])
  | .nested fragments => (addAll? format { lines := 1 } fragments).bind m.addNested?
  | .absent => m.addNested? { lines := 0 }

def addAll? (format : Format) (m : Metrics) : List Fragment → Option Metrics
  | [] => some m
  | p :: ps => (add? format m p).bind fun m => addAll? format m ps

end

/-- The metrics of a document that consists of fragments, unless the lines of one cannot be counted. -/
def ofFragments? (format : Format) (fragments : List Fragment) : Option Metrics :=
  addAll? format { lines := 1 } fragments

/-- What is not written has no line that could be left out. -/
example : ofFragments? .plain [.absent] = none := rfl

theorem after_append (m : Metrics) (format : Format) (as bs : Atoms) :
    m.after format (as ++ bs) = (m.after format as).after format bs := by
  simp only [after, List.map_append, List.sum_append, List.count_append, Nat.add_assoc]

end Metrics

namespace Fragment

mutual

def atoms : Fragment → Atoms
  | .atom a => [a]
  | .nested fragments => atomsAll fragments
  | .absent => []

def atomsAll : List Fragment → Atoms
  | [] => []
  | p :: ps => atoms p ++ atomsAll ps

end

/-- A fragment that is put into a document: empty ones are left out, at every level. -/
inductive IsKept : Fragment → Prop
  | atom (a : Atom) : IsKept (.atom a)
  | nested {fragments : List Fragment} (hne : fragments ≠ []) (h : ∀ p ∈ fragments, IsKept p) :
      IsKept (.nested fragments)

end Fragment

namespace Metrics

open Fragment

variable (format : Format)

mutual

/-- What fragments add is what their atoms add, whatever they are nested in. -/
theorem add?_eq : {p : Fragment} → p.IsKept → (m : Metrics) → m.add? format p = some (m.after format p.atoms)
  | _, .atom _, _ => rfl
  | _, .nested _ h, m => by
    rw [add?, addAll?_eq h, Option.bind_some, addNested?, if_neg (by simp [after])]
    simp [after, atoms]

theorem addAll?_eq : {ps : List Fragment} → (∀ p ∈ ps, p.IsKept) → (m : Metrics) →
    m.addAll? format ps = some (m.after format (atomsAll ps))
  | [], _, _ => rfl
  | p :: ps, h, m => by
    obtain ⟨hp, hps⟩ := List.forall_mem_cons.mp h
    rw [addAll?, add?_eq hp, Option.bind_some, addAll?_eq hps, atomsAll, after_append]

end

end Metrics

/-- **Metrics that are added up one by one are those of the document**: no fragment of it is without a
line. -/
theorem Doc.metrics_ofFragments {d : Doc} (hwritten : d.isAbsent = false) (format : Format)
    {fragments : List Fragment} (hkept : ∀ p ∈ fragments, p.IsKept)
    (hatoms : Fragment.atomsAll fragments = d.atoms) :
    Metrics.ofFragments? format fragments = some ⟨d.size, d.formatting format, d.lines⟩ := by
  rw [Metrics.ofFragments?, Metrics.addAll?_eq format hkept, hatoms, Doc.lines, if_neg (by simp [hwritten])]
  simp [Metrics.after, Doc.size, Doc.formatting, Nat.add_comm]

end TreeScribe
