import Mathlib.Data.List.Basic
import TreeScribe.Layout.Doc

/-! Reading marked-up text.

Marking adds tags around texts and writes some characters as entities. Both can be taken back, the
tags first and the entities then, and what is left is the raw text of the buffer
(`Doc.content_written`). -/
namespace TreeScribe

namespace Markup

/-- The text with every key of a table replaced, from left to right; keys are not empty. -/
def replaced (table : List (List Char × List Char)) : List Char → List Char
  | [] => []
  | c :: cs =>
    match table.find? fun entry => entry.1.isPrefixOf (c :: cs) with
    | some (key, value) => value ++ replaced table (cs.drop (key.length - 1))
    | none => c :: replaced table cs
termination_by cs => cs.length
decreasing_by all_goals grind

/-- The style classes of spans. -/
def styles : List String := ["kw", "cs", "tn", "in", "vb", "mn", "nm", "tx", "cm"]

def tags : List String := Format.spanClose :: styles.map Format.spanOpen

def entities : List (List Char × List Char) :=
  [("&amp;".toList, ['&']), ("&lt;".toList, ['<']), ("&gt;".toList, ['>']),
    ("&quot;".toList, ['"'])]

/-- The text without the tags of spans. -/
def untagged : List Char → List Char := replaced (tags.map (·.toList, []))

/-- The text with entities read as characters. -/
def decoded : List Char → List Char := replaced entities

theorem replaced_nil (table : List (List Char × List Char)) : replaced table [] = [] := by
  rw [replaced]

/-- No key of the table is empty or starts another one. -/
def PrefixFree (table : List (List Char × List Char)) : Prop :=
  ∀ a ∈ table, a.1 ≠ [] ∧ ∀ b ∈ table, a.1 <+: b.1 → a = b

instance (table : List (List Char × List Char)) : Decidable (PrefixFree table) :=
  inferInstanceAs (Decidable (∀ a ∈ table, _ ∧ ∀ b ∈ table, _ → _))

/-- A text that starts with a key starts with no other one. -/
theorem PrefixFree.find?_eq {table : List (List Char × List Char)} (hfree : PrefixFree table)
    {entry : List Char × List Char} (hentry : entry ∈ table) (rest : List Char) :
    table.find? (fun e => e.1.isPrefixOf (entry.1 ++ rest)) = some entry := by
  have hstarts : entry.1 <+: entry.1 ++ rest := List.prefix_append ..
  cases hfound : table.find? fun e => e.1.isPrefixOf (entry.1 ++ rest) with
  | none =>
    have hnone := List.find?_eq_none.mp hfound entry hentry
    exact absurd (List.isPrefixOf_iff_prefix.mpr hstarts) hnone
  | some e =>
    have he := List.mem_of_find?_eq_some hfound
    have hprefix : e.1 <+: entry.1 ++ rest := by simpa using List.find?_some hfound
    rcases List.prefix_or_prefix_of_prefix hprefix hstarts with h | h
    · rw [(hfree e he).2 entry hentry h]
    · rw [(hfree entry hentry).2 e he h]

theorem replaced_key {table : List (List Char × List Char)} (hfree : PrefixFree table)
    {entry : List Char × List Char} (hentry : entry ∈ table) (rest : List Char) :
    replaced table (entry.1 ++ rest) = entry.2 ++ replaced table rest := by
  have hfound := hfree.find?_eq hentry rest
  obtain ⟨key, value⟩ := entry
  obtain ⟨c, cs, rfl⟩ := List.exists_cons_of_ne_nil (hfree _ hentry).1
  rw [List.cons_append] at hfound ⊢
  rw [replaced, hfound]
  simp

/-- A character that starts no key stays as it is. -/
theorem replaced_char {table : List (List Char × List Char)} {start c : Char}
    (hstart : ∀ entry ∈ table, entry.1.head? = some start) (hc : c ≠ start) (rest : List Char) :
    replaced table (c :: rest) = c :: replaced table rest := by
  have hnone : table.find? (fun entry => entry.1.isPrefixOf (c :: rest)) = none := by
    refine List.find?_eq_none.mpr fun entry hentry => ?_
    obtain ⟨cs, hcs⟩ := List.head?_eq_some_iff.mp (hstart entry hentry)
    simp [hcs, List.isPrefixOf, Ne.symm hc]
  rw [replaced, hnone]

theorem untagged_char {c : Char} (hc : c ≠ '<') (rest : List Char) :
    untagged (c :: rest) = c :: untagged rest :=
  replaced_char (by decide +kernel) hc rest

theorem prefixFree_tags : PrefixFree (tags.map (·.toList, [])) := by decide +kernel

theorem prefixFree_entities : PrefixFree entities := by decide +kernel

theorem untagged_tag {tag : String} (h : tag ∈ tags) (rest : List Char) :
    untagged (tag.toList ++ rest) = untagged rest :=
  replaced_key prefixFree_tags (List.mem_map_of_mem h) rest

theorem untagged_append {cs : List Char} (h : '<' ∉ cs) (rest : List Char) :
    untagged (cs ++ rest) = cs ++ untagged rest := by
  induction cs with
  | nil => rfl
  | cons c cs ih =>
    obtain ⟨hc, hcs⟩ := not_or.mp (mt List.mem_cons.mpr h)
    rw [List.cons_append, untagged_char (Ne.symm hc), ih hcs, List.cons_append]

theorem decoded_encodeChar (c : Char) (rest : List Char) :
    decoded (Format.encodeChar c ++ rest) = c :: decoded rest := by
  have hentity {key : List Char} {c : Char} (h : (key, [c]) ∈ entities) :
      decoded (key ++ rest) = c :: decoded rest :=
    replaced_key prefixFree_entities h rest
  unfold Format.encodeChar
  split
  · exact hentity (by decide)
  · exact hentity (by decide)
  · exact hentity (by decide)
  · exact hentity (by decide)
  · next hc _ _ _ => exact replaced_char (by decide) hc rest

theorem decoded_encoded (cs : List Char) : decoded (cs.flatMap Format.encodeChar) = cs := by
  induction cs with
  | nil => exact replaced_nil _
  | cons c cs ih => rw [List.flatMap_cons, decoded_encodeChar, ih]

/-- No bracket is left in what has been encoded. -/
theorem notMem_encoded (cs : List Char) : '<' ∉ cs.flatMap Format.encodeChar := by
  intro hmem
  obtain ⟨c, -, hc⟩ := List.mem_flatMap.mp hmem
  unfold Format.encodeChar at hc
  split at hc
  · exact absurd hc (by decide)
  · exact absurd hc (by decide)
  · exact absurd hc (by decide)
  · exact absurd hc (by decide)
  · next hlt _ _ => exact hlt (List.mem_singleton.mp hc).symm

end Markup

/-- What a text of a format says when the markup is taken off. -/
def Format.content : Format → List Char → List Char
  | .plain, cs => cs
  | .html, cs => Markup.decoded (Markup.untagged cs)

open Markup

namespace Format

/-- One text is another one marked up, whatever is written after it. -/
def Marks : Format → (marked raw : List Char) → Prop
  | .plain, marked, raw => marked = raw
  | .html, marked, raw =>
    ∀ rest, untagged (marked ++ rest) = raw.flatMap encodeChar ++ untagged rest

variable {format : Format}

theorem Marks.content_eq {marked raw : List Char} (h : format.Marks marked raw) :
    format.content marked = raw := by
  cases format with
  | plain => exact h
  | html =>
    have hnil := h []
    rw [List.append_nil, show untagged [] = [] from replaced_nil _, List.append_nil] at hnil
    rw [content, hnil, decoded_encoded]

theorem Marks.append {marked raw marked' raw' : List Char} (h : format.Marks marked raw)
    (h' : format.Marks marked' raw') : format.Marks (marked ++ marked') (raw ++ raw') := by
  cases format with
  | plain => exact congrArg₂ (· ++ ·) h h'
  | html =>
    intro rest
    rw [List.append_assoc, h, h', List.flatMap_append, List.append_assoc]

theorem marks_nil : format.Marks [] [] := by
  cases format with
  | plain => exact Eq.refl []
  | html => exact fun _ => rfl

theorem marks_encode (s : String) : format.Marks (format.encode s).toList s.toList := by
  cases format with
  | plain => exact Eq.refl s.toList
  | html =>
    intro rest
    rw [encode, String.toList_ofList, untagged_append (notMem_encoded _)]

/-- A tag says nothing. -/
theorem marks_tag {tag : String} (h : tag ∈ tags) : html.Marks tag.toList [] :=
  fun rest => untagged_tag h rest

theorem spanOpen_mem {cls : TokenClass} {style : String} (h : cls.style? = some style) :
    spanOpen style ∈ tags := by
  have hstyle : style ∈ styles := by
    cases cls <;> cases h <;> decide
  exact List.mem_cons_of_mem _ (List.mem_map_of_mem hstyle)

theorem marks_mark (cls : TokenClass) (s : String) :
    format.Marks (format.mark cls s).toList s.toList := by
  unfold mark
  split
  · next style hstyle =>
    have hopen := marks_tag (spanOpen_mem hstyle)
    have hclose := marks_tag (List.mem_cons_self : spanClose ∈ tags)
    simpa [String.toList_append] using (hopen.append (marks_encode s)).append hclose
  · exact marks_encode s

theorem marks_repeated (s : String) (n : Nat) :
    format.Marks (Buffer.repeated (format.encode s) n).toList (Buffer.repeated s n).toList := by
  induction n with
  | zero => exact marks_nil
  | succ n ih =>
    rw [Buffer.repeated, Buffer.repeated, String.toList_append, String.toList_append]
    exact (marks_encode s).append ih

end Format

/-! ### Buffers -/

namespace Buffer

/-- The text of a buffer with a format is its raw text marked up. -/
structure IsMarked (format : Format) (b : Buffer) : Prop where
  style : b.format = format
  text : format.Marks b.text.toList b.raw.toList

namespace IsMarked

variable {format : Format} {b : Buffer}

theorem newline (h : IsMarked format b) : IsMarked format b.newline where
  style := h.style
  text := by
    have hbreak : format.Marks ['\n'] ['\n'] := by
      cases format with
      | plain => exact Eq.refl ['\n']
      | html => exact untagged_char (by decide)
    show format.Marks (b.text.push '\n').toList (b.raw.push '\n').toList
    rw [String.toList_push, String.toList_push]
    exact h.text.append hbreak

theorem segment (h : IsMarked format b) (cls : TokenClass) (s : String) :
    IsMarked format (b.segment cls s) := by
  unfold Buffer.segment
  split
  · exact h
  · refine ⟨h.style, ?_⟩
    simp only [h.style, String.toList_append]
    exact (h.text.append (Format.marks_repeated b.indent b.margin)).append (Format.marks_mark cls s)

theorem continued (h : IsMarked format b) (cls : TokenClass) (ls : List (List Char)) :
    IsMarked format (b.continued cls ls) := by
  induction ls generalizing b with
  | nil => exact h
  | cons l ls ih => exact ih (h.newline.segment cls _)

theorem write (h : IsMarked format b) (cls : TokenClass) (s : String) :
    IsMarked format (b.write cls s) := by
  unfold Buffer.write
  split
  · exact h
  · exact (h.segment cls _).continued cls _

theorem atom (h : IsMarked format b) (a : Atom) : IsMarked format (a.write b) := by
  cases a with
  | token cls s | operator _ cls s => exact h.write cls s
  | mention _ s | opening s | closing s => exact h.write _ s
  | declaration _ | note _ => exact h
  | newline => exact h.newline
  | indent | unindent => exact ⟨h.style, h.text⟩

theorem atoms (h : IsMarked format b) (as : Atoms) : IsMarked format (as.write b) := by
  induction as generalizing b with
  | nil => exact h
  | cons a as ih => exact ih (h.atom a)

end IsMarked
end Buffer

/-- **Taking the markup off a written document leaves its raw text.** -/
theorem Doc.content_written (d : Doc) (format : Format) (indent : String) :
    format.content (d.written format indent).text.toList =
      (d.written format indent).raw.toList := by
  have hstart : Buffer.IsMarked format { format, indent } := ⟨rfl, Format.marks_nil⟩
  exact (hstart.atoms d.atoms).text.content_eq

end TreeScribe
