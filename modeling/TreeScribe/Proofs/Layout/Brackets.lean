import TreeScribe.Proofs.Layout.Page
import TreeScribe.Render.Env

/-! Brackets in what is written.

Brackets are read from left to right, with those that are still to be closed at hand. Atoms are balanced
when reading them closes all that it opens. What is balanced can be put one after the other or between a
pair of brackets, so that whole texts are balanced because their parts are.

The texts of literals and of comments are left out: brackets in them are not those of the code. -/
namespace TreeScribe

/-! ### Reading brackets -/

/-- The bracket that closes an opening one. -/
def closer? (c : Char) : Option Char :=
  if c = '(' then some ')' else if c = '[' then some ']' else if c = '\x7b' then some '\x7d' else none

def isCloser (c : Char) : Bool := c == ')' || c == ']' || c == '\x7d'

def isBracket (c : Char) : Bool := (closer? c).isSome || isCloser c

/-- Reads characters with the closing brackets that are still to come, the next one first. There is no
result if a bracket is closed that is not open, or not the last one to be opened. -/
def nest : (pending : List Char) → List Char → Option (List Char)
  | pending, [] => some pending
  | pending, c :: cs =>
    match closer? c with
    | some closer => nest (closer :: pending) cs
    | none =>
      if isCloser c then
        match pending with
        | closer :: pending => if c = closer then nest pending cs else none
        | [] => none
      else nest pending cs

/-- Brackets further out are not touched. -/
theorem nest_append {pending pending' cs : List Char} (h : nest pending cs = some pending')
    (outer rest : List Char) : nest (pending ++ outer) (cs ++ rest) = nest (pending' ++ outer) rest := by
  induction cs generalizing pending with
  | nil =>
    obtain rfl : pending = pending' := Option.some.inj h
    rfl
  | cons c cs ih =>
    rw [List.cons_append, nest.eq_def]
    rw [nest.eq_def] at h
    cases hcloser : closer? c with
    | some closer =>
      simp only [hcloser] at h ⊢
      exact ih h
    | none =>
      simp only [hcloser] at h ⊢
      cases hcloses : isCloser c with
      | false =>
        simp only [hcloses, Bool.false_eq_true, if_false] at h ⊢
        exact ih h
      | true =>
        simp only [hcloses, if_true] at h ⊢
        cases pending with
        | nil => cases h
        | cons closer pending =>
          dsimp only [List.cons_append] at h ⊢
          split at h
          next hc =>
            rw [if_pos hc]
            exact ih h
          · cases h

/-- Every bracket that opens is closed, in the order of nesting. -/
def IsNested (cs : List Char) : Prop := nest [] cs = some []

instance (cs : List Char) : Decidable (IsNested cs) := inferInstanceAs (Decidable (_ = _))

/-- There are no brackets in the text. -/
def IsPlain (s : String) : Prop := ∀ c ∈ s.toList, isBracket c = false

instance (s : String) : Decidable (IsPlain s) := inferInstanceAs (Decidable (∀ c ∈ s.toList, _))

/-- The same as a computation, which `grind` does for texts that are known. -/
def lacksBrackets : List Char → Bool
  | [] => true
  | c :: cs => !isBracket c && lacksBrackets cs

@[grind norm] theorem isPlain_iff (s : String) : IsPlain s ↔ lacksBrackets s.toList = true := by
  unfold IsPlain
  induction s.toList with
  | nil => simp [lacksBrackets]
  | cons c cs ih => simp [lacksBrackets, ← ih]

@[grind norm] theorem lacksBrackets_nil : lacksBrackets [] = true := rfl

@[grind norm] theorem lacksBrackets_cons (c : Char) (cs : List Char) :
    lacksBrackets (c :: cs) =
      (!(decide (c = '(') || decide (c = ')') || decide (c = '[') || decide (c = ']') || decide (c = '\x7b') ||
        decide (c = '\x7d')) && lacksBrackets cs) := by
  simp only [lacksBrackets, isBracket, closer?, isCloser]
  grind

/-- The first text opens one bracket, which the second text closes. -/
def IsPair (opening closing : String) : Prop :=
  ∃ closer, nest [] opening.toList = some [closer] ∧ nest [closer] closing.toList = some []

namespace IsNested

variable {cs ds : List Char}

theorem nil : IsNested [] := rfl

theorem append (h : IsNested cs) (h' : IsNested ds) : IsNested (cs ++ ds) :=
  (nest_append h [] ds).trans h'

theorem of_plain (h : ∀ c ∈ cs, isBracket c = false) : IsNested cs := by
  induction cs with
  | nil => rfl
  | cons c cs ih =>
    obtain ⟨hc, hcs⟩ := List.forall_mem_cons.mp h
    obtain ⟨hopen, hclose⟩ := Bool.or_eq_false_iff.mp hc
    have hopen := Option.isNone_iff_eq_none.mp (Option.isSome_eq_false_iff.mp hopen)
    unfold IsNested
    rw [nest.eq_def]
    simp only [hopen, hclose, Bool.false_eq_true, if_false]
    exact ih hcs

/-- What is nested stays so between a pair of brackets. -/
theorem enclosed (h : IsNested cs) {opening closing : String} (hpair : IsPair opening closing) :
    IsNested (opening.toList ++ cs ++ closing.toList) := by
  obtain ⟨closer, hopening, hclosing⟩ := hpair
  unfold IsNested
  rw [List.append_assoc, ← List.nil_append [], nest_append hopening, List.append_nil,
    ← List.nil_append [closer], nest_append h, List.nil_append, hclosing]
  rfl

end IsNested

theorem IsPlain.append {s t : String} (h : IsPlain s) (h' : IsPlain t) : IsPlain (s ++ t) := by
  intro c hc
  rw [String.toList_append] at hc
  exact (List.mem_append.mp hc).elim (h c) (h' c)

/-! ### Brackets of atoms -/

/-- The characters that are written, unless in a literal or a comment. -/
def Atom.code : Atom → List Char
  | .token .text _ | .token .comment _ => []
  | a => a.chars

def Atoms.code (as : Atoms) : List Char := as.flatMap Atom.code

/-- The code of the atoms is nested. -/
def Balanced (as : Atoms) : Prop := IsNested as.code

namespace Balanced

variable {as bs : Atoms}

theorem nil : Balanced [] := IsNested.nil

@[grind ←] theorem append (h : Balanced as) (h' : Balanced bs) : Balanced (as ++ bs) := by
  unfold Balanced Atoms.code
  rw [List.flatMap_append]
  exact IsNested.append h h'

theorem of_code {a : Atom} (h : IsNested a.code) : Balanced [a] := by
  unfold Balanced Atoms.code
  rwa [List.flatMap_singleton]

/-- Nothing is written here. -/
theorem of_chars {a : Atom} (h : a.chars = []) : Balanced [a] := by
  refine of_code ?_
  have hcode : a.code = [] := by
    unfold Atom.code
    split
    · rfl
    · rfl
    · exact h
  rw [hcode]
  exact .nil

theorem of_text (cls : TokenClass) {s : String} (h : IsNested s.toList) : Balanced [.token cls s] := by
  refine of_code ?_
  cases cls with
  | text | comment => exact .nil
  | _ => exact h

theorem token_of_balanced (cls : TokenClass) {s : String} (h : IsNested s.toList) :
    Balanced (Atoms.token cls s) := by
  unfold Atoms.token
  split
  · exact nil
  · exact of_text cls h

@[grind ←] theorem token (cls : TokenClass) {s : String} (h : IsPlain s) : Balanced (Atoms.token cls s) :=
  token_of_balanced cls (.of_plain h)

@[grind ←] theorem text {s : String} (h : IsPlain s) : Balanced (Atoms.text s) := token _ h

theorem nestedText {s : String} (h : IsNested s.toList) : Balanced (Atoms.text s) := token_of_balanced _ h

@[grind ←] theorem keyword {s : String} (h : IsPlain s) : Balanced (Atoms.keyword s) := token _ h

@[grind ←] theorem control {s : String} (h : IsPlain s) : Balanced (Atoms.control s) := token _ h

@[grind ←] theorem varName {s : String} (h : IsPlain s) : Balanced (Atoms.varName s) := token _ h

@[grind ←] theorem methodName {s : String} (h : IsPlain s) : Balanced (Atoms.methodName s) := token _ h

@[grind ←] theorem space : Balanced Atoms.space := text (by decide)

@[grind ←] theorem newline : Balanced Atoms.newline := of_code (.of_plain (by decide))

/-- Literals and comments may hold what they like. -/
@[grind ←] theorem literal (s : String) : Balanced (Atoms.token .text s) := by
  unfold Atoms.token
  split
  · exact nil
  · exact of_code .nil

@[grind ←] theorem comment (s : String) : Balanced (Atoms.token .comment s) := by
  unfold Atoms.token
  split
  · exact nil
  · exact of_code .nil

@[grind ←] theorem mention (node : Nat) {s : String} (h : IsPlain s) : Balanced (Atoms.mention node s) := by
  unfold Atoms.mention
  split
  · exact nil
  · exact of_code (.of_plain h)

@[grind ←] theorem operatorAtom (level : Level) (cls : TokenClass) {sign : String} (h : IsPlain sign) :
    Balanced [.operator level cls sign] :=
  of_code (.of_plain h)

@[grind ←] theorem operator (level : Level) {sign : String} (h : IsPlain sign) :
    Balanced (Atoms.operator level sign) :=
  operatorAtom _ _ h

@[grind ←] theorem operatorWord (level : Level) {word : String} (h : IsPlain word) :
    Balanced (Atoms.operatorWord level word) :=
  operatorAtom _ _ h

@[grind ←] theorem note (n : Note) : Balanced (Atoms.note n) := of_chars rfl

@[grind ←] theorem declaring (slot : Slot) (h : Balanced as) : Balanced (Atoms.declaring slot as) := by
  have hmark : Balanced [.declaration slot] := of_chars rfl
  exact hmark.append h

@[grind ←] theorem indented (h : Balanced as) : Balanced (Atoms.indented as) := by
  have hindent : Balanced [.indent] := of_chars rfl
  have hunindent : Balanced [.unindent] := of_chars rfl
  exact (hindent.append h).append hunindent

@[grind ←] theorem enclosed (node : Nat) (h : Balanced as) : Balanced (Atoms.enclosed node as) :=
  ((note _).append h).append (note _)

theorem bracketed (h : Balanced as) {opening closing : String} (hpair : IsPair opening closing) :
    Balanced (Atoms.bracketed opening closing as) := by
  have hcode : (Atoms.bracketed opening closing as).code =
      opening.toList ++ as.code ++ closing.toList := by
    simp [Atoms.bracketed, Atoms.code, Atom.code, Atom.chars]
  unfold Balanced
  rw [hcode]
  exact IsNested.enclosed h hpair

@[grind ←] theorem parens (h : Balanced as) : Balanced (Atoms.parens as) :=
  h.bracketed ⟨')', rfl, rfl⟩

@[grind ←] theorem condition (h : Balanced as) : Balanced (Atoms.bracketed " (" ")" as) :=
  h.bracketed ⟨')', rfl, rfl⟩

@[grind ←] theorem brackets (h : Balanced as) : Balanced (Atoms.bracketed "[" "]" as) :=
  h.bracketed ⟨']', rfl, rfl⟩

@[grind ←] theorem braces (h : Balanced as) : Balanced (Atoms.bracketed "\x7b" "\x7d" as) :=
  h.bracketed ⟨'\x7d', rfl, rfl⟩

/-- The braces of an initializer on one line. -/
@[grind ←] theorem initializer (h : Balanced as) : Balanced (Atoms.bracketed " \x7b " " \x7d" as) :=
  h.bracketed ⟨'\x7d', rfl, rfl⟩

@[grind ←] theorem element (h : Balanced as) : Balanced (Atoms.bracketed "\x7b " " \x7d" as) :=
  h.bracketed ⟨'\x7d', rfl, rfl⟩

/-- The brackets of a cast are written as the sign of an operator and a text. -/
theorem cast (level : Level) (h : Balanced as) :
    Balanced (Atoms.operator level "(" ++ as ++ Atoms.text ")") := by
  have hcode : (Atoms.operator level "(" ++ as ++ Atoms.text ")").code =
      "(".toList ++ as.code ++ ")".toList := by
    simp [Atoms.operator, Atoms.text, Atoms.token, Atoms.code, Atom.code, Atom.chars]
  unfold Balanced
  rw [hcode]
  exact IsNested.enclosed h ⟨')', rfl, rfl⟩

@[grind ←] theorem joinedBy {separator : Atoms} (hs : Balanced separator) {parts : List Atoms}
    (h : ∀ as ∈ parts, Balanced as) : Balanced (Atoms.joinedBy separator parts) := by
  induction parts with
  | nil => exact .nil
  | cons as rest ih =>
    have has := h as (List.mem_cons_self ..)
    have hrest := ih fun bs hb => h bs (List.mem_cons_of_mem _ hb)
    cases rest with
    | nil => exact has
    | cons bs rest => exact .append (.append has hs) hrest

@[grind ←] theorem separated {separator : String} (hs : IsPlain separator) {parts : List Atoms}
    (h : ∀ as ∈ parts, Balanced as) : Balanced (Atoms.separated separator parts) :=
  joinedBy (text hs) h

@[grind ←] theorem «when» (condition : Bool) (h : Balanced as) : Balanced (Atoms.when condition as) := by
  unfold Atoms.when
  split
  · exact h
  · exact .nil

@[grind ←] theorem flatten {parts : List Atoms} (h : ∀ as ∈ parts, Balanced as) :
    Balanced parts.flatten := by
  induction parts with
  | nil => exact .nil
  | cons as rest ih =>
    rw [List.flatten_cons]
    exact .append (h as (List.mem_cons_self ..)) (ih fun bs hb => h bs (List.mem_cons_of_mem _ hb))

theorem of_forall (h : ∀ a ∈ as, Balanced [a]) : Balanced as := by
  rw [← List.flatMap_singleton' as, List.flatMap_def]
  exact flatten (List.forall_mem_map.mpr h)

theorem intercalate {separator : Atoms} (hs : Balanced separator) {parts : List Atoms}
    (h : ∀ as ∈ parts, Balanced as) : Balanced (separator.intercalate parts) :=
  intercalate_induction nil (fun _ _ => append) hs h

@[grind ←] theorem labelLine {target : Target} (h : IsPlain target.writtenName) :
    Balanced (Atoms.labelLine target) :=
  ((note _).append (text h)).append (text (by decide))

end Balanced

/-! ### Documents -/

/-- The code of a document is nested. -/
abbrev Doc.IsBalanced (d : Doc) : Prop := Balanced d.atoms

namespace Doc

variable {d : Doc}

@[grind ←] theorem IsBalanced.parenthesized (h : d.IsBalanced) : d.parenthesized.IsBalanced :=
  Balanced.parens h

@[grind ←] theorem IsBalanced.terminated (h : d.IsBalanced) : d.terminated.IsBalanced := by
  unfold Doc.terminated
  split
  · exact h
  · exact .append h (.text (by decide))

@[grind ←] theorem IsBalanced.braced (h : d.IsBalanced) : d.braced.IsBalanced := by
  refine .braces (.append ?_ .newline)
  split
  · exact .nil
  · exact .indented (.append .newline h)

@[grind ←] theorem IsBalanced.returned (h : d.IsBalanced) : d.returned.IsBalanced :=
  .append (.append (.control (by decide)) .space) h

@[grind ←] theorem IsBalanced.absent (kind : NodeKind) (ty : TypeRef) : (Doc.absent kind ty).IsBalanced :=
  Balanced.nil

@[grind ←] theorem balanced_separated {separator : String} (hs : IsPlain separator) {ds : List Doc}
    (h : ∀ d ∈ ds, d.IsBalanced) : Balanced (Render.separated separator ds) :=
  .separated hs (List.forall_mem_map.mpr h)

theorem IsBalanced.noted (h : d.IsBalanced) (node : Nat) : (d.noted node).IsBalanced := by
  unfold Doc.noted
  split
  · exact h
  · exact .append h (.note _)

end Doc

end TreeScribe
