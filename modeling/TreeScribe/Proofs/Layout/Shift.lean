import TreeScribe.Proofs.Layout.Laid
import TreeScribe.Proofs.Layout.Page
import TreeScribe.Proofs.Text.Pieces

/-! Texts within texts.

Well-laid atoms take every indentation back, so where they are written decides only how far in their
lines start: written under other lines they give the lines that they give on their own, shifted
(`Page.commutes_of_laid`). A text in braces under a header is therefore the header, and the text with one more
step of indentation before each line that is not empty (`Atoms.rawText_nested`). -/
namespace TreeScribe

/-! ### Texts line by line -/

namespace Text

/-- The text with an indentation before each line that is not empty. -/
def indentLines (indent text : List Char) : List Char :=
  ['\n'].intercalate ((splitOn '\n' text).map fun l => if l = [] then [] else indent ++ l)

end Text

/-! ### Atoms step by step -/

/-- What holds of atoms that are no step in or out, of sequences and of what is indented, holds of all
well-laid atoms. -/
theorem Laid.of_steps {P : TypeRef → Prop} {Q : Atoms → Prop} (hnil : Q [])
    (hsingle : ∀ a, a ≠ .indent → a ≠ .unindent → Q [a]) (happend : ∀ as bs, Q as → Q bs → Q (as ++ bs))
    (hindented : ∀ as, Q as → Q (Atoms.indented as)) {as : Atoms} (h : Laid P as) : Q as := by
  have hflat (as : Atoms) (h : ∀ a ∈ as, a ≠ .indent ∧ a ≠ .unindent) : Q as := by
    induction as with
    | nil => exact hnil
    | cons a as ih =>
      obtain ⟨ha, has⟩ := List.forall_mem_cons.mp h
      exact happend [a] as (hsingle a ha.1 ha.2) (ih has)
  have htext (s : String) : Q (Atoms.text s) := by
    unfold Atoms.text Atoms.token
    split
    · exact hnil
    · exact hsingle _ nofun nofun
  induction h with
  | nil => exact hnil
  | @flat a ha => refine hsingle a ?_ ?_ <;> rintro rfl <;> cases ha
  | typeName options t =>
    refine happend _ _ (hsingle _ nofun nofun) (hflat _ fun a ha => ?_)
    obtain ⟨_, -, rfl⟩ := List.mem_map.mp ha
    exact ⟨nofun, nofun⟩
  | labelLine target => exact happend _ _ (happend _ _ (hsingle _ nofun nofun) (htext _)) (htext _)
  | append _ _ iha ihb => exact happend _ _ iha ihb
  | indented _ ih => exact hindented _ ih
  | bracketed opening closing _ ih =>
    exact happend _ _ (happend _ _ (hsingle _ nofun nofun) ih) (hsingle _ nofun nofun)

/-! ### Pages under lines -/

namespace Line

/-- The line that many steps further in. -/
def shifted (steps : Nat) (l : Line) : Line := { l with depth := l.depth + steps }

theorem indented_shifted_one (indent : String) (l : Line) :
    (l.shifted 1).indented indent =
      if l.indented indent = [] then [] else indent.toList ++ l.indented indent := by
  by_cases hcontent : l.content = []
  · simp [indented, shifted, hcontent]
  · simp [indented, shifted, hcontent, Buffer.repeated]

theorem newline_notMem_indented {indent : String} (hindent : '\n' ∉ indent.toList) {l : Line}
    (hl : '\n' ∉ l.content) : '\n' ∉ l.indented indent := by
  have hrepeated (n : Nat) : '\n' ∉ (Buffer.repeated indent n).toList := by
    induction n with
    | zero => simp [Buffer.repeated]
    | succ n ih => simp [Buffer.repeated, hindent, ih]
  unfold indented
  split
  · exact List.not_mem_nil
  · simp [hrepeated, hl]

end Line

namespace Page

/-- The page with its lines further in, after lines that are finished. -/
def under (above : List Line) (steps : Nat) (p : Page) : Page where
  depth := p.depth + steps
  finished := above ++ p.finished.map (Line.shifted steps)
  last := p.last.shifted steps

variable {above : List Line} {steps : Nat} {p : Page}

theorem under_newline : (p.under above steps).newline = p.newline.under above steps := by
  simp [under, newline, Line.shifted]

theorem under_push (c : Char) : (p.under above steps).push c = (p.push c).under above steps := by
  unfold push
  split
  · exact under_newline
  · rfl

theorem depth_push (c : Char) : (p.push c).depth = p.depth := by
  unfold push
  split <;> rfl

theorem under_write (s : String) : (p.under above steps).write s = (p.write s).under above steps := by
  unfold write
  generalize s.toList = cs
  induction cs generalizing p with
  | nil => rfl
  | cons c cs ih => rw [List.foldl_cons, List.foldl_cons, under_push, ih]

theorem depth_write (s : String) : (p.write s).depth = p.depth := by
  unfold write
  generalize s.toList = cs
  induction cs generalizing p with
  | nil => rfl
  | cons c cs ih => rw [List.foldl_cons, ih, depth_push]

/-- Atoms are written alike wherever their lines start, and the next line starts where it would have. -/
def Commutes (as : Atoms) : Prop :=
  ∀ (p : Page) (above : List Line) (steps : Nat),
    as.foldl atom (p.under above steps) = (as.foldl atom p).under above steps ∧
      (as.foldl atom p).depth = p.depth

namespace Commutes

theorem nil : Commutes [] := fun _ _ _ => ⟨rfl, rfl⟩

theorem append {as bs : Atoms} (ha : Commutes as) (hb : Commutes bs) : Commutes (as ++ bs) := by
  intro p above steps
  simp only [List.foldl_append]
  rw [(ha p above steps).1, (hb _ above steps).1, (hb _ above steps).2, (ha p above steps).2]
  exact ⟨rfl, rfl⟩

/-- An atom that is not a step in or out. -/
theorem single {a : Atom} (ha : a ≠ .indent ∧ a ≠ .unindent) : Commutes [a] := by
  intro p above steps
  cases a with
  | token _ s | operator _ _ s | mention _ s | opening s | closing s =>
    exact ⟨under_write s, depth_write s⟩
  | newline => exact ⟨under_newline, rfl⟩
  | declaration _ | note _ => exact ⟨rfl, rfl⟩
  | indent => exact absurd rfl ha.1
  | unindent => exact absurd rfl ha.2

/-- The step out gives the depth back that the step in found. -/
theorem indented {as : Atoms} (h : Commutes as) : Commutes (Atoms.indented as) := by
  intro p above steps
  have hdeepen : (p.under above steps).deepen = p.deepen.under above steps := by
    simp [under, deepen, Nat.add_right_comm]
  have hdepth : (as.foldl atom p.deepen).depth = p.depth + 1 := (h p.deepen above steps).2
  simp only [Atoms.indented, List.foldl_append, List.foldl_cons, List.foldl_nil, atom]
  rw [hdeepen, (h p.deepen above steps).1]
  constructor
  · simp [under, shallow, hdepth, Nat.add_right_comm]
  · simp [shallow, hdepth]

end Commutes

/-- **Well-laid atoms commute with the place of their lines**, and leave no indentation behind. -/
theorem commutes_of_laid {P : TypeRef → Prop} {as : Atoms} (h : Laid P as) : Commutes as :=
  h.of_steps .nil (fun _ hin hout => .single ⟨hin, hout⟩) (fun _ _ => .append) fun _ => .indented

/-! ### Texts in braces -/

/-- The text of the page one step further in. -/
theorem text_under {indent : String} (hindent : '\n' ∉ indent.toList) (hp : p.IsProper) :
    (p.under above 1).text indent =
      above.flatMap (fun l => l.indented indent ++ ['\n']) ++
        Text.indentLines indent.toList (p.text indent) := by
  have hlines : (p.under above 1).lines = above ++ p.lines.map (Line.shifted 1) := by
    simp [lines, under]
  have hsplit : Text.splitOn '\n' (p.text indent) = p.lines.map (Line.indented indent) := by
    refine Text.splitOn_intercalate (by simp [lines]) fun piece hpiece => ?_
    obtain ⟨l, hl, rfl⟩ := List.mem_map.mp hpiece
    exact Line.newline_notMem_indented hindent (hp.split l hl)
  have hshifted : p.lines.map (fun l => (l.shifted 1).indented indent) =
      (Text.splitOn '\n' (p.text indent)).map fun l => if l = [] then [] else indent.toList ++ l := by
    rw [hsplit, List.map_map]
    exact List.map_congr_left fun l _ => Line.indented_shifted_one indent l
  have happend (above : List Line) {below : List Line} (hbelow : below ≠ []) :
      ['\n'].intercalate ((above ++ below).map (Line.indented indent)) =
        above.flatMap (fun l => l.indented indent ++ ['\n']) ++
          ['\n'].intercalate (below.map (Line.indented indent)) := by
    induction above with
    | nil => rfl
    | cons l above ih =>
      rw [List.cons_append, List.map_cons, List.intercalate_cons_of_ne_nil (by simp [hbelow]), ih]
      simp
  rw [text, hlines, happend above (by simp [lines]), List.map_map, Text.indentLines, ← hshifted]
  rfl

end Page

namespace Atoms

/-- The raw text of the atoms, with this indentation. -/
def rawText (indent : String) (as : Atoms) : List Char := (as.foldl Page.atom {}).text indent

/-- A header, and atoms in braces under it. -/
def nested (header body : Atoms) : Atoms :=
  header ++ newline ++ bracketed "\x7b" "\x7d" (indented (newline ++ body) ++ newline)

theorem wellLaid_nested {header body : Atoms} (hheader : WellLaid header) (hbody : WellLaid body) :
    WellLaid (nested header body) :=
  (hheader.append .newline).append (.bracketed _ _ ((Laid.indented (.append .newline hbody)).append .newline))

/-- **A nested text is the header, and the text on its own with one more step of indentation before each
line that is not empty**, between lines that hold the braces. -/
theorem rawText_nested {indent : String} (hindent : '\n' ∉ indent.toList) {header body : Atoms}
    (hheader : WellLaid header) (hbody : WellLaid body) :
    (nested header body).rawText indent =
      header.rawText indent ++ "\n\x7b\n".toList ++
        Text.indentLines indent.toList (body.rawText indent) ++ "\n\x7d".toList := by
  have hproper : (body.foldl Page.atom {}).IsProper :=
    Page.IsProper.atoms ⟨by simp [Page.lines], fun _ => rfl⟩ body
  have hdepth : (header.foldl Page.atom {}).depth = 0 := (Page.commutes_of_laid hheader {} [] 0).2
  unfold rawText
  generalize hinner : body.foldl Page.atom {} = inner at hproper ⊢
  generalize htop : header.foldl Page.atom {} = top at hdepth ⊢
  let above : List Line := top.lines ++ [{ content := ['\x7b'] }]
  obtain ⟨hunder, hbodyDepth⟩ := Page.commutes_of_laid hbody {} above 1
  rw [hinner] at hunder hbodyDepth
  have hstart : ((top.newline.write "\x7b").deepen).newline = ({} : Page).under above 1 := by
    simp [Page.write, Page.push, Page.newline, Page.segment, Page.deepen, Page.under, Page.lines, above,
      Line.shifted, hdepth]
  have hpage : (nested header body).foldl Page.atom {} =
      ((inner.under above 1).shallow).newline.segment ['\x7d'] := by
    simp only [nested, bracketed, indented, newline, List.foldl_append, List.foldl_cons, List.foldl_nil,
      Page.atom, htop, hstart, hunder]
    rfl
  have hshallow : ((inner.under above 1).shallow).depth = 0 := by
    simp [Page.shallow, Page.under, hbodyDepth]
  have habove : above.flatMap (fun l => l.indented indent ++ ['\n']) =
      top.text indent ++ "\n\x7b\n".toList := by
    simp [above, Page.lines, Page.text_eq, Line.indented, List.flatMap_map, Buffer.repeated]
  rw [hpage, Page.text_segment _ _ (by simp), Page.text_newline]
  show (inner.under above 1).text indent ++ ['\n'] ++ _ ++ _ = _
  rw [Page.text_under hindent hproper, habove]
  simp [Page.newline, hshallow, Buffer.repeated]

end Atoms

/-! ### Texts of one depth -/

/-- Nothing is indented, on the last line or the next one. -/
structure Page.IsLevel (p : Page) : Prop where
  depth : p.depth = 0
  last : p.last.depth = 0

namespace Page.IsLevel

variable {p : Page}

theorem push (h : p.IsLevel) (indent : String) (c : Char) :
    (p.push c).IsLevel ∧ (p.push c).text indent = p.text indent ++ [c] := by
  unfold Page.push
  split
  next hc => exact ⟨⟨h.depth, h.depth⟩, by rw [text_newline, hc]⟩
  · refine ⟨⟨h.depth, h.last⟩, ?_⟩
    rw [text_segment _ _ (List.cons_ne_nil c []), h.last]
    simp [Buffer.repeated]

theorem write (h : p.IsLevel) (indent : String) (s : String) :
    (p.write s).IsLevel ∧ (p.write s).text indent = p.text indent ++ s.toList := by
  unfold Page.write
  generalize s.toList = cs
  induction cs generalizing p with
  | nil => exact ⟨h, (List.append_nil _).symm⟩
  | cons c cs ih =>
    obtain ⟨hpush, htext⟩ := h.push indent c
    obtain ⟨hrest, hrestText⟩ := ih hpush
    refine ⟨hrest, ?_⟩
    rw [List.foldl_cons, hrestText, htext, List.append_assoc, List.singleton_append]

theorem atom (h : p.IsLevel) (indent : String) {a : Atom} (ha : a ≠ .indent) :
    (p.atom a).IsLevel ∧ (p.atom a).text indent = p.text indent ++ a.chars := by
  cases a with
  | token _ s | operator _ _ s | mention _ s | opening s | closing s => exact h.write indent s
  | newline => exact ⟨⟨h.depth, h.depth⟩, text_newline indent p⟩
  | declaration _ | note _ => exact ⟨h, (List.append_nil _).symm⟩
  | indent => exact absurd rfl ha
  | unindent => exact ⟨⟨by rw [Page.atom, shallow, h.depth], h.last⟩, (List.append_nil _).symm⟩

theorem atoms (h : p.IsLevel) (indent : String) {as : Atoms} (has : .indent ∉ as) :
    (as.foldl Page.atom p).text indent = p.text indent ++ as.flatMap Atom.chars := by
  induction as generalizing p with
  | nil => exact (List.append_nil _).symm
  | cons a as ih =>
    obtain ⟨ha, has⟩ := not_or.mp (mt List.mem_cons.mpr has)
    obtain ⟨hatom, htext⟩ := h.atom indent (Ne.symm ha)
    rw [List.foldl_cons, ih hatom has, htext, List.append_assoc, List.flatMap_cons]

end Page.IsLevel

/-- Without indentation the text is what is written. -/
theorem Atoms.rawText_level (indent : String) {as : Atoms} (h : .indent ∉ as) :
    as.rawText indent = as.flatMap Atom.chars := by
  have hstart : ({} : Page).IsLevel := ⟨rfl, rfl⟩
  have htext : ({} : Page).text indent = [] := by simp [Page.text_eq, Line.indented]
  rw [rawText, hstart.atoms indent h, htext, List.nil_append]

@[simp] theorem Atoms.indent_notMem_token (cls : TokenClass) (s : String) :
    Atom.indent ∉ Atoms.token cls s := by
  unfold Atoms.token
  split <;> simp

end TreeScribe
