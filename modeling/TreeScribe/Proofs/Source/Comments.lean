import TreeScribe.Proofs.Layout.Shift
import TreeScribe.Proofs.Layout.Strokes
import TreeScribe.Source.Writer

/-! Where comments end.

A comment and the summary of a method are written line by line, each line with slashes in front of it. Lines
are those between newlines; but a reader may also end a line at a carriage return, and takes what comes next
for code unless there are slashes. So all that is written is comment exactly if what stands between the
carriage returns within a line of the text brings its own slashes (`commented_iff`). -/
namespace TreeScribe

/-! ### Pieces of texts -/

namespace Text

/-- After blanks there are two slashes. -/
def StartsComment (piece : List Char) : Prop := ['/', '/'] <+: trimStart piece

instance : DecidablePred StartsComment := fun piece =>
  inferInstanceAs (Decidable (_ <+: trimStart piece))

/-- What comes after a carriage return is nothing, or a comment again. -/
def ResumesComment (line : List Char) : Prop :=
  ∀ piece ∈ (splitOn '\r' line).tail, piece ≠ [] → StartsComment piece

instance : DecidablePred ResumesComment := fun line =>
  inferInstanceAs (Decidable (∀ piece ∈ (splitOn '\r' line).tail, piece ≠ [] → StartsComment piece))

end Text

/-! ### Lines that are written -/

/-- The lines that atoms write, without indentation. -/
def Atoms.writtenLines (as : Atoms) : List (List Char) := Text.splitOn '\n' (as.flatMap Atom.chars)

/-- Cut at newlines and carriage returns, all that is written is comment. -/
def Atoms.IsCommented (as : Atoms) : Prop :=
  ∀ line ∈ as.writtenLines, ∀ piece ∈ Text.splitOn '\r' line, piece ≠ [] → Text.StartsComment piece

instance : DecidablePred Atoms.IsCommented := fun as =>
  inferInstanceAs (Decidable (∀ line ∈ as.writtenLines, ∀ piece ∈ Text.splitOn '\r' line,
    piece ≠ [] → Text.StartsComment piece))

/-- The lines of a page on which more lines have been written. The first one goes on with the last line of
the page. -/
def Page.extended (p : Page) : List (List Char) → List Line
  | [] => p.lines
  | l :: ls =>
    p.finished ++ { p.last with content := p.last.content ++ l } ::
      ls.map fun l => { depth := p.depth, content := l }

theorem Stroke.splitOn_eq (depth : Nat) (cs : List Char) :
    ∃ ls, Text.splitOn '\n' cs = Stroke.content (cs.map .ofChar) :: ls ∧
      Stroke.linesFrom depth (cs.map .ofChar) = ls.map fun l => { depth, content := l } := by
  induction cs with
  | nil => exact ⟨[], rfl, rfl⟩
  | cons c cs ih =>
    obtain ⟨ls, hsplit, hlines⟩ := ih
    rw [Text.splitOn, hsplit, List.map_cons, Stroke.ofChar]
    by_cases hc : c = '\n'
    · rw [if_pos hc, if_pos hc]
      refine ⟨Stroke.content (cs.map .ofChar) :: ls, rfl, ?_⟩
      rw [Stroke.linesFrom, hlines, List.map_cons]
    · rw [if_neg hc, if_neg hc]
      refine ⟨ls, rfl, ?_⟩
      rw [Stroke.linesFrom]
      · exact hlines
      · exact Stroke.noConfusion

namespace Atoms

variable {as : Atoms}

/-- No line is further in than the one before. -/
def IsLevel (as : Atoms) : Prop := ∀ a ∈ as, a ≠ .indent ∧ a ≠ .unindent

theorem strokes_of_isLevel (h : as.IsLevel) :
    as.strokes = (as.flatMap Atom.chars).map Stroke.ofChar := by
  induction as with
  | nil => rfl
  | cons a as ih =>
    have ha : a.strokes = a.chars.map Stroke.ofChar := by
      obtain ⟨hindent, hunindent⟩ := h a (List.mem_cons_self ..)
      cases a with
      | indent => exact absurd rfl hindent
      | unindent => exact absurd rfl hunindent
      | _ => rfl
    show a.strokes ++ Atoms.strokes as = _
    rw [ha, ih fun b hb => h b (List.mem_cons_of_mem _ hb), List.flatMap_cons, List.map_append]

/-- Level atoms extend a page by the lines that they write. -/
theorem lines_of_isLevel (h : as.IsLevel) (p : Page) :
    (as.foldl Page.atom p).lines = p.extended as.writtenLines := by
  obtain ⟨ls, hsplit, hlines⟩ := Stroke.splitOn_eq p.depth (as.flatMap Atom.chars)
  rw [Page.atoms_eq, Page.lines_strokes, strokes_of_isLevel h, writtenLines, hsplit, Page.extended, hlines]

namespace IsLevel

theorem append {as bs : Atoms} (ha : as.IsLevel) (hb : bs.IsLevel) : IsLevel (as ++ bs) := fun a hmem =>
  (List.mem_append.mp hmem).elim (ha a) (hb a)

theorem token (cls : TokenClass) (s : String) : IsLevel (Atoms.token cls s) := by
  unfold Atoms.token
  split
  · exact fun a ha => nomatch ha
  · intro a ha
    obtain rfl := List.mem_singleton.mp ha
    exact ⟨Atom.noConfusion, Atom.noConfusion⟩

theorem newline : IsLevel Atoms.newline := by
  intro a ha
  obtain rfl := List.mem_singleton.mp ha
  exact ⟨Atom.noConfusion, Atom.noConfusion⟩

end IsLevel
end Atoms

/-! ### A line that is written -/

namespace Text

/-- A line is written with slashes in front of it, or by its own. -/
structure IsWrittenAs (line written : List Char) : Prop where
  slashes : ['/', '/'] <+: written
  /-- What comes after a carriage return is as it was. -/
  resumed : (splitOn '\r' written).tail = (splitOn '\r' line).tail

theorem isWrittenAs_behind {lead : List Char} (hreturn : '\r' ∉ lead) (hslashes : ['/', '/'] <+: lead)
    (line : List Char) : IsWrittenAs line (lead ++ line) := by
  obtain ⟨first, hsplit⟩ := splitOn_append_of_notMem hreturn line
  exact ⟨hslashes.trans (List.prefix_append ..), by rw [hsplit, List.tail_cons]⟩

theorem startsComment_of_slashes {piece : List Char} (h : ['/', '/'] <+: piece) : StartsComment piece := by
  obtain ⟨rest, rfl⟩ := h
  exact ⟨rest, rfl⟩

/-- The first piece has the slashes, so that only the others can be code. -/
theorem IsWrittenAs.isCommented_iff {line written : List Char} (h : IsWrittenAs line written) :
    (∀ piece ∈ splitOn '\r' written, piece ≠ [] → StartsComment piece) ↔ ResumesComment line := by
  obtain ⟨⟨rest, rfl⟩, hresumed⟩ := h
  obtain ⟨first, hsplit⟩ := splitOn_append_of_notMem (by decide : '\r' ∉ ['/', '/']) rest
  have hfirst : StartsComment (['/', '/'] ++ first) := startsComment_of_slashes (List.prefix_append ..)
  rw [hsplit, List.tail_cons] at hresumed
  rw [hsplit, List.forall_mem_cons, ResumesComment, hresumed]
  exact and_iff_right fun _ => hfirst

end Text

/-! ### Comments -/

namespace Render

theorem isWrittenAs_commentLine (line : List Char) :
    Text.IsWrittenAs (Text.trim line) (commentLine line).toList := by
  unfold commentLine
  dsimp only
  split
  next h =>
    rw [String.toList_ofList]
    exact ⟨List.isPrefixOf_iff_prefix.mp h, rfl⟩
  · rw [String.toList_append, String.toList_ofList (l := Text.trim line)]
    exact Text.isWrittenAs_behind (by decide) ⟨[' '], rfl⟩ _

theorem newline_notMem_commentLine {line : List Char} (h : '\n' ∉ line) :
    '\n' ∉ (commentLine line).toList := by
  have htrim : '\n' ∉ Text.trim line := fun hmem => h (Text.trim_subset line hmem)
  unfold commentLine
  dsimp only
  split
  · rwa [String.toList_ofList]
  · rw [String.toList_append, List.mem_append, not_or, String.toList_ofList (l := Text.trim line)]
    exact ⟨by decide, htrim⟩

theorem chars_commentLines (lines : List (List Char)) :
    (commentLines lines).flatMap Atom.chars =
      ['\n'].intercalate (lines.map fun line => (commentLine line).toList) := by
  induction lines with
  | nil => rfl
  | cons line lines ih =>
    cases lines with
    | nil =>
      rw [List.map_singleton, List.intercalate_singleton]
      exact Atoms.chars_token ..
    | cons line' lines =>
      rw [List.map_cons, List.intercalate_cons_of_ne_nil (by simp), ← ih, ← Atoms.chars_token .comment]
      simp [commentLines, Atoms.newline, Atom.chars]

theorem isLevel_commentLines (lines : List (List Char)) : Atoms.IsLevel (commentLines lines) := by
  induction lines with
  | nil => exact fun a ha => nomatch ha
  | cons line lines ih =>
    cases lines with
    | nil => exact .token _ _
    | cons line' lines => exact ((Atoms.IsLevel.token _ _).append .newline).append ih

theorem writtenLines_comment (s : String) :
    (comment s).atoms.writtenLines =
      if Text.lines s.toList = [] then [[]]
      else (Text.lines s.toList).map fun line => (commentLine line).toList := by
  show Atoms.writtenLines (commentLines (Text.lines s.toList)) = _
  have hnewline : ∀ line ∈ Text.lines s.toList, '\n' ∉ (commentLine line).toList := fun line hline =>
    newline_notMem_commentLine (Text.newline_notMem_lines hline)
  rw [Atoms.writtenLines, chars_commentLines]
  split
  next hnil =>
    rw [hnil]
    rfl
  next hlines =>
    exact Text.splitOn_intercalate (by simpa using hlines) (List.forall_mem_map.mpr hnewline)

theorem isCommented_comment_iff (s : String) :
    (comment s).atoms.IsCommented ↔ ∀ line ∈ Text.lines s.toList, Text.ResumesComment (Text.trim line) := by
  rw [Atoms.IsCommented, writtenLines_comment]
  split
  next hnil =>
    rw [hnil]
    decide
  · rw [List.forall_mem_map]
    exact forall₂_congr fun line _ => (isWrittenAs_commentLine line).isCommented_iff

theorem startsComment_comment {s : String} {line : List Char} (h : line ∈ (comment s).atoms.writtenLines)
    (hline : line ≠ []) : Text.StartsComment line := by
  rw [writtenLines_comment] at h
  split at h
  · exact absurd (List.mem_singleton.mp h) hline
  · obtain ⟨line', -, rfl⟩ := List.mem_map.mp h
    exact Text.startsComment_of_slashes (isWrittenAs_commentLine line').slashes

end Render

/-! ### Summaries -/

namespace MethodModel

/-- The lines of a summary; below them the method starts on a line of its own. -/
def summaryLines (summary : String) : List (List Char) :=
  "/// <summary>".toList ::
    ((Text.lines summary.toList).map fun line => "/// ".toList ++ Text.trimEnd line) ++
      ["/// </summary>".toList, []]

theorem writtenLines_summaryAtoms (summary : String) :
    (summaryAtoms summary).writtenLines = summaryLines summary := by
  have hchars : (summaryAtoms summary).flatMap Atom.chars = ['\n'].intercalate (summaryLines summary) := by
    rw [summaryLines, List.cons_append, Text.intercalate_cons_eq]
    simp [summaryAtoms, Atoms.newline, Atom.chars, List.flatMap_assoc, List.flatMap_map]
  rw [Atoms.writtenLines, hchars]
  refine Text.splitOn_intercalate (List.cons_ne_nil _ _) fun line hline => ?_
  obtain hline | hline := List.mem_append.mp hline
  · obtain rfl | hline := List.mem_cons.mp hline
    · decide
    · obtain ⟨line, hmem, rfl⟩ := List.mem_map.mp hline
      rw [List.mem_append, not_or]
      exact ⟨by decide, fun h => Text.newline_notMem_lines hmem (Text.trimEnd_subset line h)⟩
  · have hend : ∀ line ∈ ["/// </summary>".toList, []], '\n' ∉ line := by decide
    exact hend line hline

theorem isLevel_summaryAtoms (summary : String) : (summaryAtoms summary).IsLevel := by
  have hlines : Atoms.IsLevel ((Text.lines summary.toList).flatMap fun line =>
      Atoms.newline ++ Atoms.token .comment ("/// " ++ String.ofList (Text.trimEnd line))) := by
    intro a ha
    obtain ⟨line, -, ha⟩ := List.mem_flatMap.mp ha
    exact (Atoms.IsLevel.newline.append (.token _ _)) a ha
  exact ((((Atoms.IsLevel.token _ _).append hlines).append .newline).append (.token _ _)).append .newline

theorem isWrittenAs_summaryLine (line : List Char) : Text.IsWrittenAs line ("/// ".toList ++ line) :=
  Text.isWrittenAs_behind (by decide) ⟨['/', ' '], rfl⟩ line

theorem isCommented_summaryAtoms_iff (summary : String) :
    (summaryAtoms summary).IsCommented ↔
      ∀ line ∈ Text.lines summary.toList, Text.ResumesComment (Text.trimEnd line) := by
  have htags : ∀ line ∈ ["/// <summary>".toList, "/// </summary>".toList, []],
      ∀ piece ∈ Text.splitOn '\r' line, piece ≠ [] → Text.StartsComment piece := by decide
  rw [Atoms.IsCommented, writtenLines_summaryAtoms, summaryLines, List.forall_mem_append, List.forall_mem_cons,
    List.forall_mem_map]
  constructor
  · rintro ⟨⟨-, hlines⟩, -⟩ line hline
    exact (isWrittenAs_summaryLine _).isCommented_iff.mp (hlines line hline)
  · intro hlines
    refine ⟨⟨htags _ (List.mem_cons_self ..), fun line hline => ?_⟩,
      fun line hline => htags line (List.mem_cons_of_mem _ hline)⟩
    exact (isWrittenAs_summaryLine _).isCommented_iff.mpr (hlines line hline)

theorem startsComment_summaryAtoms {summary : String} {line : List Char}
    (h : line ∈ (summaryAtoms summary).writtenLines) (hline : line ≠ []) : Text.StartsComment line := by
  have htags : ∀ line ∈ ["/// <summary>".toList, "/// </summary>".toList, []],
      line ≠ [] → Text.StartsComment line := by decide
  rw [writtenLines_summaryAtoms, summaryLines, List.mem_append, List.mem_cons] at h
  obtain (rfl | h) | h := h
  · exact htags _ (List.mem_cons_self ..) hline
  · obtain ⟨line', -, rfl⟩ := List.mem_map.mp h
    exact Text.startsComment_of_slashes (isWrittenAs_summaryLine _).slashes
  · exact htags line (List.mem_cons_of_mem _ h) hline

end MethodModel

/-- **What is written for a comment or a summary is comment, unless a carriage return ends it.** Wherever it is
written, its lines are the next ones of the output, each with the indentation of its place; and each line that
is not empty starts with slashes. Where a carriage return ends a line too, all that stems from the text is
comment exactly if, in every line of the text without the blanks around it, what comes after a carriage
return is nothing or starts with slashes again. -/
theorem commented_iff (text : String) :
    (∀ as ∈ [(Render.comment text).atoms, MethodModel.summaryAtoms text],
      (∀ (indent : String) (b : Buffer) (p : Page), b.Shows indent p →
        (as.write b).raw.toList =
          ['\n'].intercalate ((p.extended as.writtenLines).map (Line.indented indent))) ∧
      ∀ line ∈ as.writtenLines, line ≠ [] → Text.StartsComment line) ∧
    ((Render.comment text).atoms.IsCommented ↔
      ∀ line ∈ Text.lines text.toList, Text.ResumesComment (Text.trim line)) ∧
    ((MethodModel.summaryAtoms text).IsCommented ↔
      ∀ line ∈ Text.lines text.toList, Text.ResumesComment (Text.trimEnd line)) := by
  have hlaid {as : Atoms} (h : as.IsLevel) (indent : String) (b : Buffer) (p : Page)
      (hshows : b.Shows indent p) : (as.write b).raw.toList =
        ['\n'].intercalate ((p.extended as.writtenLines).map (Line.indented indent)) := by
    rw [(hshows.atoms as).raw, Page.text, Atoms.lines_of_isLevel h]
  refine ⟨List.forall_mem_cons.mpr ⟨⟨hlaid ?_, fun line => ?_⟩,
      List.forall_mem_singleton.mpr ⟨hlaid ?_, fun line => ?_⟩⟩,
    Render.isCommented_comment_iff text, MethodModel.isCommented_summaryAtoms_iff text⟩
  · exact Render.isLevel_commentLines _
  · exact Render.startsComment_comment
  · exact MethodModel.isLevel_summaryAtoms text
  · exact MethodModel.startsComment_summaryAtoms

/-- A carriage return before a newline or among the blanks at the end is no harm; one within a line lets the
rest of the line out. -/
example : (Render.comment "a\r\nb\r").atoms.IsCommented ∧ ¬(Render.comment "a\rb").atoms.IsCommented ∧
    ¬(MethodModel.summaryAtoms "a\rb").IsCommented := by
  decide

end TreeScribe
