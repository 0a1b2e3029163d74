import TreeScribe.Layout.Doc
import TreeScribe.Proofs.Text.Pieces
import TreeScribe.Source.Name

/-! Reading a text as lexemes.

The lexer takes one character at a time and keeps what it has not finished yet: a name, a number
or the first character of a sign. White space finishes everything, and a sign takes a second
character if the two make a sign. Layout is not seen: writing atoms to a buffer and reading the
text comes to scanning the atoms one after the other (`scan_write`). -/
namespace TreeScribe.Read

/-- What holds of the characters of a list is decided on the list, and not on all characters. -/
instance (priority := high) decidableForallMemChars {p : Char → Prop} [DecidablePred p]
    (cs : List Char) : Decidable (∀ c ∈ cs, p c) :=
  List.decidableBAll p cs

inductive Lexeme where
  | name (s : String)
  /-- A reserved word. -/
  | word (s : String)
  | number (n : Nat) (isLong : Bool)
  | sign (s : String)
deriving DecidableEq, Repr

/-- What the lexer has not finished. -/
inductive Pending where
  | nothing
  | name (cs : List Char)
  | number (n : Nat)
  | long (n : Nat)
  | sign (c : Char)
deriving DecidableEq, Repr

/-- A name that starts with `@` is never a word. -/
def ofName : List Char → Lexeme
  | '@' :: cs => .name (String.ofList cs)
  | cs => if isReserved (String.ofList cs) then .word (String.ofList cs) else .name (String.ofList cs)

def Pending.lexemes : Pending → List Lexeme
  | .nothing => []
  | .name cs => [ofName cs]
  | .number n => [.number n false]
  | .long n => [.number n true]
  | .sign c => [.sign (String.ofList [c])]

structure Lexer where
  done : List Lexeme := []
  pending : Pending := .nothing

namespace Lexer

/-- All lexemes read so far. -/
def lexemes (l : Lexer) : List Lexeme := l.done ++ l.pending.lexemes

/-- The signs of two characters. -/
def doubleSigns : List (Char × Char) :=
  [('+', '+'), ('-', '-'), ('&', '&'), ('|', '|'), ('=', '='), ('!', '='), ('<', '='), ('>', '='),
    ('<', '<'), ('>', '>'), ('?', '?')]

/-- A character that starts something new. -/
def starting (c : Char) : Pending :=
  if c.isWhitespace then .nothing
  else if c.isDigit then .number (c.toNat - '0'.toNat)
  else if isNameChar c || c == '@' then .name [c]
  else .sign c

def feedChar (l : Lexer) (c : Char) : Lexer :=
  match l.pending with
  | .name cs =>
    if isNameChar c then ⟨l.done, .name (cs ++ [c])⟩ else ⟨l.lexemes, starting c⟩
  | .number n =>
    if c.isDigit then ⟨l.done, .number (10 * n + (c.toNat - '0'.toNat))⟩
    else if c == 'L' then ⟨l.done, .long n⟩
    else ⟨l.lexemes, starting c⟩
  | .sign d =>
    if (d, c) ∈ doubleSigns then ⟨l.done ++ [Lexeme.sign (String.ofList [d, c])], .nothing⟩
    else ⟨l.lexemes, starting c⟩
  | _ => ⟨l.lexemes, starting c⟩

def feed (l : Lexer) (cs : List Char) : Lexer := cs.foldl feedChar l

end Lexer

/-- The lexemes of a text. -/
def lex (s : String) : List Lexeme := (Lexer.feed {} s.toList).lexemes

example : lex "a +++b[1L]\n  && @is" =
    [.name "a", .sign "++", .sign "+", .name "b", .sign "[", .number 1 true, .sign "]", .sign "&&",
      .name "is"] := by
  decide +kernel

/-! ### Feeding characters -/

namespace Lexer

variable {l : Lexer} {c : Char}

theorem feed_append (l : Lexer) (cs ds : List Char) :
    l.feed (cs ++ ds) = (l.feed cs).feed ds :=
  List.foldl_append ..

@[simp] theorem feed_nil (l : Lexer) : l.feed [] = l := rfl

@[simp] theorem feed_cons (l : Lexer) (c : Char) (cs : List Char) :
    l.feed (c :: cs) = (l.feedChar c).feed cs :=
  rfl

theorem eq_of_isWhitespace (h : c.isWhitespace = true) :
    c = ' ' ∨ c = '\t' ∨ c = '\r' ∨ c = '\n' := by
  simpa [Char.isWhitespace, or_assoc] using h

/-- White space finishes what is pending. -/
theorem feedChar_blank (l : Lexer) (h : c.isWhitespace = true) :
    l.feedChar c = ⟨l.lexemes, .nothing⟩ := by
  have hstarting : starting c = .nothing := if_pos h
  have hc := eq_of_isWhitespace h
  have hname : isNameChar c = false := by
    rcases hc with rfl | rfl | rfl | rfl <;> decide
  have hdigit : c.isDigit = false ∧ (c == 'L') = false := by
    rcases hc with rfl | rfl | rfl | rfl <;> decide
  have hsign (d : Char) : (d, c) ∉ doubleSigns := by
    rcases hc with rfl | rfl | rfl | rfl <;> simp [doubleSigns]
  unfold feedChar
  split
  · rw [hname, hstarting]
    rfl
  · rw [hdigit.1, hdigit.2, hstarting]
    rfl
  · rw [if_neg (hsign _), hstarting]
  · rw [hstarting]

theorem feed_blanks {cs : List Char} (h : ∀ c ∈ cs, c.isWhitespace = true)
    (hl : l.pending = .nothing) : l.feed cs = l := by
  induction cs with
  | nil => rfl
  | cons c cs ih =>
    have hflush : l.feedChar c = l := by
      obtain ⟨done, pending⟩ := l
      rw [feedChar_blank _ (h c (List.mem_cons_self ..))]
      subst hl
      simp [lexemes, Pending.lexemes]
    rw [feed_cons, hflush]
    exact ih fun c' hc' => h c' (List.mem_cons_of_mem _ hc')

/-- The characters that signs and brackets consist of. -/
def signChars : List Char := "+-*/%&|^=!<>?:()[],.~".toList

/-- The character does not continue a sign that is pending. -/
def Splits (l : Lexer) (c : Char) : Prop := ∀ d, l.pending = .sign d → (d, c) ∉ doubleSigns

theorem feedChar_sign (hc : c ∈ signChars) (h : l.Splits c) :
    l.feedChar c = ⟨l.lexemes, .sign c⟩ := by
  have hclasses : ∀ c ∈ signChars, isNameChar c = false ∧ c.isDigit = false ∧
      (c == 'L') = false ∧ starting c = .sign c := by
    decide
  obtain ⟨hname, hdigit, hlong, hstarting⟩ := hclasses c hc
  unfold feedChar
  split
  · rw [hname, hstarting]
    rfl
  · rw [hdigit, hlong, hstarting]
    rfl
  next d hpending => rw [if_neg (h d hpending), hstarting]
  · rw [hstarting]

theorem feedChar_double {done : List Lexeme} {d : Char} (h : (d, c) ∈ doubleSigns) :
    feedChar ⟨done, .sign d⟩ c = ⟨done ++ [Lexeme.sign (String.ofList [d, c])], .nothing⟩ :=
  if_pos h

/-- A sign that the lexer knows. -/
def isSign (s : String) : Bool :=
  match s.toList with
  | [c] => c ∈ signChars
  | [d, c] => (d, c) ∈ doubleSigns
  | _ => false

/-- A sign is read whole, unless it continues one that is pending. -/
theorem lexemes_feed_sign {s : String} (hs : isSign s = true) (hc : c ∈ s.toList.head?)
    (h : l.Splits c) :
    (l.feed s.toList).lexemes = l.lexemes ++ [Lexeme.sign s] ∧
      ((l.feed s.toList).pending = .nothing ∨ (l.feed s.toList).pending = .sign c) := by
  have hfirst : ∀ p ∈ doubleSigns, p.1 ∈ signChars := by decide
  have hstring : s = String.ofList s.toList := String.ofList_toList.symm
  unfold isSign at hs
  split at hs
  next d heq =>
    obtain rfl : d = c := by simpa [heq] using hc
    rw [heq] at hstring ⊢
    rw [feed_cons, feedChar_sign (of_decide_eq_true hs) h, hstring]
    exact ⟨rfl, .inr rfl⟩
  next d e heq =>
    obtain rfl : d = c := by simpa [heq] using hc
    have hmem := of_decide_eq_true hs
    rw [heq] at hstring ⊢
    rw [feed_cons, feedChar_sign (hfirst _ hmem) h, feed_cons, feedChar_double hmem, hstring]
    exact ⟨List.append_nil _, .inl rfl⟩
  · cases hs

theorem lexemes_feed_sign_of_nothing {s : String} (hs : isSign s = true) (done : List Lexeme) :
    (feed ⟨done, .nothing⟩ s.toList).lexemes = done ++ [Lexeme.sign s] := by
  cases hc : s.toList with
  | nil => simp [isSign, hc] at hs
  | cons c cs =>
    have hread := lexemes_feed_sign hs (c := c) (l := ⟨done, .nothing⟩) (by simp [hc]) nofun
    rw [← hc, hread.1]
    simp [lexemes, Pending.lexemes]

/-- An operand may follow. -/
def IsOpen (l : Lexer) : Prop := l.pending = .nothing ∨ ∃ d, l.pending = .sign d

/-- Every sign may follow. -/
def IsClosed (l : Lexer) : Prop := ∀ d, l.pending = .sign d → d = ')' ∨ d = ']'

theorem IsClosed.splits (h : l.IsClosed) (c : Char) : l.Splits c := by
  intro d hd
  rcases h d hd with rfl | rfl <;> simp [doubleSigns]

theorem splits_of_not_sign (hc : c ∉ signChars) : l.Splits c := by
  have hsecond : ∀ p ∈ doubleSigns, p.2 ∈ signChars := by decide
  exact fun d _ hmem => hc (hsecond _ hmem)

theorem IsOpen.feedChar_eq (h : l.IsOpen) (hc : l.Splits c) :
    l.feedChar c = ⟨l.lexemes, starting c⟩ := by
  unfold feedChar
  rcases h with h | ⟨d, h⟩
  · rw [h]
  · rw [h]
    exact if_neg (hc d h)

/-! ### Names and numbers -/

theorem feed_nameChars (done : List Lexeme) (acc : List Char) {cs : List Char}
    (h : ∀ c ∈ cs, isNameChar c = true) :
    feed ⟨done, .name acc⟩ cs = ⟨done, .name (acc ++ cs)⟩ := by
  induction cs generalizing acc with
  | nil => simp
  | cons c cs ih =>
    have hc : feedChar ⟨done, .name acc⟩ c = ⟨done, .name (acc ++ [c])⟩ :=
      if_pos (h c (List.mem_cons_self ..))
    rw [feed_cons, hc, ih _ fun c' hc' => h c' (List.mem_cons_of_mem _ hc')]
    simp

theorem feed_name (h : l.IsOpen) {cs : List Char} (hc : isNameChar c = true ∨ c = '@')
    (hdigit : c.isDigit = false) (hcs : ∀ c ∈ cs, isNameChar c = true) :
    l.feed (c :: cs) = ⟨l.lexemes, .name (c :: cs)⟩ := by
  have hsign : ∀ c ∈ signChars, isNameChar c = false ∧ c ≠ '@' := by decide
  have hblank : c.isWhitespace = false := by
    rw [Bool.eq_false_iff]
    intro hblank
    rcases eq_of_isWhitespace hblank with rfl | rfl | rfl | rfl <;> revert hc <;> decide
  have hsplits : l.Splits c := by
    refine splits_of_not_sign fun hmem => ?_
    rcases hc with hc | hc
    · rw [(hsign c hmem).1] at hc
      cases hc
    · exact (hsign c hmem).2 hc
  have hstarting : starting c = .name [c] := by
    rcases hc with hc | rfl
    · simp [starting, hblank, hdigit, hc]
    · decide
  rw [feed_cons, h.feedChar_eq hsplits, hstarting, feed_nameChars _ _ hcs]
  rfl

theorem feed_digits (done : List Lexeme) (n : Nat) {cs : List Char}
    (h : ∀ c ∈ cs, c.isDigit = true) :
    feed ⟨done, .number n⟩ cs = ⟨done, .number (Nat.ofDigitChars 10 cs n)⟩ := by
  induction cs generalizing n with
  | nil => simp
  | cons c cs ih =>
    have hc : feedChar ⟨done, .number n⟩ c = ⟨done, .number (10 * n + (c.toNat - '0'.toNat))⟩ :=
      if_pos (h c (List.mem_cons_self ..))
    rw [feed_cons, hc, ih _ fun c' hc' => h c' (List.mem_cons_of_mem _ hc'),
      Nat.ofDigitChars_cons]

theorem feed_number (h : l.IsOpen) (n : Nat) : l.feed (Nat.toDigits 10 n) = ⟨l.lexemes, .number n⟩ := by
  have hdigits : ∀ c ∈ Nat.toDigits 10 n, c.isDigit = true :=
    fun c hc => Nat.isDigit_of_mem_toDigits (by decide) (by decide) hc
  have hvalue : Nat.ofDigitChars 10 (Nat.toDigits 10 n) 0 = n := Nat.ofDigitChars_ten_toDigits
  cases hcs : Nat.toDigits 10 n with
  | nil => exact absurd hcs Nat.toDigits_ne_nil
  | cons c cs =>
    rw [hcs] at hdigits hvalue
    have hc := hdigits c (List.mem_cons_self ..)
    have hsign : ∀ c ∈ signChars, c.isDigit = false := by decide
    have hsplits : l.Splits c := by
      refine splits_of_not_sign fun hmem => ?_
      rw [hsign c hmem] at hc
      cases hc
    have hblank : c.isWhitespace = false := by
      rw [Bool.eq_false_iff]
      intro hblank
      rcases eq_of_isWhitespace hblank with rfl | rfl | rfl | rfl <;> revert hc <;> decide
    have hstarting : starting c = .number (c.toNat - '0'.toNat) := by
      simp [starting, hblank, hc]
    rw [Nat.ofDigitChars_cons, Nat.mul_zero, Nat.zero_add] at hvalue
    rw [feed_cons, h.feedChar_eq hsplits, hstarting,
      feed_digits _ _ fun c' hc' => hdigits c' (List.mem_cons_of_mem _ hc'), hvalue]

end Lexer

/-! ### Scanning atoms -/

/-- The lexer after an atom, as if it were written on one line. -/
def scanAtom (l : Lexer) : Atom → Lexer
  | .token _ s | .operator _ _ s | .mention _ s | .opening s | .closing s => l.feed s.toList
  | .newline => l.feedChar '\n'
  | .declaration _ | .note _ | .indent | .unindent => l

def scan (l : Lexer) (as : Atoms) : Lexer := as.foldl scanAtom l

section Scan

variable (l : Lexer)

@[simp] theorem scan_nil : scan l [] = l := rfl

@[simp] theorem scan_append (as bs : Atoms) : scan l (as ++ bs) = scan (scan l as) bs :=
  List.foldl_append ..

@[simp] theorem scan_token (cls : TokenClass) (s : String) :
    scan l (Atoms.token cls s) = l.feed s.toList := by
  unfold Atoms.token
  split
  next h =>
    rw [String.isEmpty_iff.mp h]
    rfl
  · rfl

@[simp] theorem scan_note (n : Note) : scan l (Atoms.note n) = l := rfl

@[simp] theorem scan_text (s : String) : scan l (Atoms.text s) = l.feed s.toList := scan_token ..

@[simp] theorem scan_keyword (s : String) : scan l (Atoms.keyword s) = l.feed s.toList :=
  scan_token ..

@[simp] theorem scan_mention (node : Nat) (s : String) :
    scan l (Atoms.mention node s) = l.feed s.toList := by
  unfold Atoms.mention
  split
  next h =>
    rw [String.isEmpty_iff.mp h]
    rfl
  · rfl

@[simp] theorem scan_methodName (s : String) : scan l (Atoms.methodName s) = l.feed s.toList :=
  scan_token ..

@[simp] theorem scan_operator (level : Level) (s : String) :
    scan l (Atoms.operator level s) = l.feed s.toList :=
  rfl

@[simp] theorem scan_space : scan l Atoms.space = ⟨l.lexemes, .nothing⟩ :=
  (scan_text ..).trans (Lexer.feedChar_blank l rfl)

@[simp] theorem scan_newline : scan l Atoms.newline = ⟨l.lexemes, .nothing⟩ :=
  Lexer.feedChar_blank l rfl

@[simp] theorem scan_indented (as : Atoms) : scan l (Atoms.indented as) = scan l as := by
  simp [Atoms.indented, scan, scanAtom]

@[simp] theorem scan_bracketed (opening closing : String) (as : Atoms) :
    scan l (Atoms.bracketed opening closing as) =
      (scan (l.feed opening.toList) as).feed closing.toList := by
  simp [Atoms.bracketed, scan, scanAtom]

end Scan

/-! ### The layout is not seen -/

/-- The lexer after the text of a buffer. -/
def scanned (b : Buffer) : Lexer := Lexer.feed {} b.text.toList

/-- The text is plain, and where the indentation of a line is still to come, nothing is
pending. -/
structure IsPlain (b : Buffer) : Prop where
  format : b.format = .plain
  indent : ∀ c ∈ b.indent.toList, c.isWhitespace = true
  margin : b.margin = 0 ∨ (scanned b).pending = .nothing

variable {b : Buffer}

theorem isWhitespace_of_mem_repeated {s : String} (h : ∀ c ∈ s.toList, c.isWhitespace = true)
    {n : Nat} {c : Char} (hc : c ∈ (Buffer.repeated s n).toList) : c.isWhitespace = true := by
  induction n with
  | zero => simp [Buffer.repeated] at hc
  | succ n ih =>
    rw [Buffer.repeated, String.toList_append, List.mem_append] at hc
    rcases hc with hc | hc
    · exact h c hc
    · exact ih hc

theorem scanned_segment (h : IsPlain b) (cls : TokenClass) (s : String) :
    IsPlain (b.segment cls s) ∧ scanned (b.segment cls s) = (scanned b).feed s.toList := by
  unfold Buffer.segment
  split
  next hs =>
    rw [String.isEmpty_iff.mp hs]
    exact ⟨h, rfl⟩
  · have hmargin : (scanned b).feed (Buffer.repeated b.indent b.margin).toList = scanned b := by
      rcases h.margin with hzero | hnothing
      · rw [hzero]
        rfl
      · exact Lexer.feed_blanks (fun c hc => isWhitespace_of_mem_repeated h.indent hc) hnothing
    refine ⟨⟨h.format, h.indent, .inl rfl⟩, ?_⟩
    have hmark : b.format.mark cls s = s ∧ b.format.encode b.indent = b.indent := by
      rw [h.format]
      exact ⟨by unfold Format.mark; split <;> first | contradiction | rfl, rfl⟩
    show Lexer.feed {} (b.text ++ Buffer.repeated (b.format.encode b.indent) b.margin ++
      b.format.mark cls s).toList = _
    rw [hmark.1, hmark.2, String.toList_append, String.toList_append, Lexer.feed_append,
      Lexer.feed_append]
    exact congrArg (·.feed s.toList) hmargin

theorem scanned_newline (h : IsPlain b) :
    IsPlain b.newline ∧ scanned b.newline = (scanned b).feedChar '\n' := by
  have hscanned : scanned b.newline = (scanned b).feedChar '\n' := by
    show Lexer.feed {} (b.text.push '\n').toList = _
    rw [String.toList_push, Lexer.feed_append]
    rfl
  refine ⟨⟨h.format, h.indent, .inr ?_⟩, hscanned⟩
  rw [hscanned, Lexer.feedChar_blank _ rfl]

theorem scanned_continued (h : IsPlain b) (cls : TokenClass) (ls : List (List Char)) :
    IsPlain (b.continued cls ls) ∧
      scanned (b.continued cls ls) = (scanned b).feed (ls.flatMap ('\n' :: ·)) := by
  induction ls generalizing b with
  | nil => exact ⟨h, rfl⟩
  | cons line ls ih =>
    obtain ⟨hnewline, hbreak⟩ := scanned_newline h
    obtain ⟨hsegment, hline⟩ := scanned_segment hnewline cls (String.ofList line)
    obtain ⟨hall, hrest⟩ := ih hsegment
    refine ⟨hall, ?_⟩
    rw [Buffer.continued, hrest, hline, hbreak, String.toList_ofList, List.flatMap_cons,
      Lexer.feed_append]
    rfl

theorem intercalate_cons (line : List Char) (ls : List (List Char)) :
    ['\n'].intercalate (line :: ls) = line ++ ls.flatMap ('\n' :: ·) := by
  induction ls generalizing line with
  | nil => simp [List.intercalate]
  | cons next ls ih =>
    rw [List.flatMap_cons, List.cons_append, ← ih next]
    simp [List.intercalate]

theorem scanned_write (h : IsPlain b) (cls : TokenClass) (s : String) :
    IsPlain (b.write cls s) ∧ scanned (b.write cls s) = (scanned b).feed s.toList := by
  have hjoined := Text.intercalate_splitOn '\n' s.toList
  unfold Buffer.write
  split
  next hnil => exact absurd hnil (Text.splitOn_ne_nil _ _)
  next line ls hsplit =>
    obtain ⟨hsegment, hline⟩ := scanned_segment h cls (String.ofList line)
    obtain ⟨hall, hrest⟩ := scanned_continued hsegment cls ls
    refine ⟨hall, ?_⟩
    have hs : s.toList = line ++ ls.flatMap ('\n' :: ·) := by
      rw [← hjoined, hsplit, intercalate_cons]
    rw [hrest, hline, String.toList_ofList, hs, Lexer.feed_append]

/-- **Reading the text of a buffer comes to scanning what is written to it.** -/
theorem scan_write (h : IsPlain b) (as : Atoms) :
    IsPlain (as.write b) ∧ scanned (as.write b) = scan (scanned b) as := by
  induction as generalizing b with
  | nil => exact ⟨h, rfl⟩
  | cons a as ih =>
    have hatom : IsPlain (a.write b) ∧ scanned (a.write b) = scanAtom (scanned b) a := by
      cases a with
      | token cls s | operator _ cls s => exact scanned_write h cls s
      | mention _ s => exact scanned_write h .variable s
      | opening s | closing s => exact scanned_write h .plain s
      | newline => exact scanned_newline h
      | declaration _ | note _ | indent | unindent => exact ⟨⟨h.format, h.indent, h.margin⟩, rfl⟩
    obtain ⟨hplain, hrest⟩ := ih hatom.1
    exact ⟨hplain, hrest.trans (congrArg (scan · as) hatom.2)⟩

end TreeScribe.Read
