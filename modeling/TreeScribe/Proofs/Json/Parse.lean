import Mathlib.Algebra.Group.Int.Defs
import Mathlib.Algebra.GroupWithZero.Nat
import Mathlib.Data.List.TakeWhile
import TreeScribe.Json.Printer
import TreeScribe.Json.Reader

/-! Reading JSON text that was written.

What the writer gives is cut into the tokens of the value (`scans_prettyThen`), and the tokens are read as that
value (`takeValue?_tokens`), so that reading gives back what was written (`parse?_pretty`). Strings are given
back whatever they hold; numbers are, if their own texts are. -/
namespace TreeScribe.Json

/-! ### Strings -/

theorem hexWord?_control : ∀ n < 0x20, hexWord? '0' '0' (hexChar (n / 16)) (hexChar (n % 16)) = some n := by
  decide

/-- An escaped character is read as the character. -/
theorem scanString?_escapeChar (c : Char) (cs : List Char) :
    scanString? (escapeChar c ++ cs) = (scanString? cs).map fun p => (c :: p.1, p.2) := by
  have hmap (c : Char) : (do
      let p ← scanString? cs
      return (c :: p.1, p.2)) = (scanString? cs).map fun p => (c :: p.1, p.2) := by
    cases scanString? cs <;> rfl
  by_cases hshort : c ∈ ['"', '\\', '\x08', '\x0c', '\n', '\r', '\t']
  · simp only [List.mem_cons, List.not_mem_nil, or_false] at hshort
    rcases hshort with rfl | rfl | rfl | rfl | rfl | rfl | rfl <;> exact hmap _
  · simp only [List.mem_cons, List.not_mem_nil, or_false, not_or] at hshort
    obtain ⟨hquote, hbackslash, hbackspace, hfeed, hnewline, hreturn, htab⟩ := hshort
    by_cases hcontrol : c.toNat < 0x20
    · have hescape : escapeChar c =
          ['\\', 'u', '0', '0', hexChar (c.toNat / 16), hexChar (c.toNat % 16)] := by
        simp [escapeChar, *]
      have hlow : ¬(0xDC00 ≤ c.toNat ∧ c.toNat ≤ 0xDFFF) := by omega
      have hhigh : ¬(0xD800 ≤ c.toNat ∧ c.toNat ≤ 0xDBFF) := by omega
      rw [hescape]
      simp only [List.cons_append, List.nil_append]
      rw [scanString?, hexWord?_control _ hcontrol]
      simpa [hlow, hhigh] using hmap c
    · have hescape : escapeChar c = [c] := by simp [escapeChar, *]
      have hraw : (decide (c.toNat < 0x20) || c == '\\') = false := by
        rw [decide_eq_false hcontrol, beq_eq_false_iff_ne.mpr hbackslash]
        rfl
      rw [hescape, List.singleton_append, scanString?, hraw]
      · exact hmap c
      · exact hquote
      · exact fun _ _ _ _ _ h => absurd h hbackslash
      · exact fun _ _ h => absurd h hbackslash

/-- **A quoted string is read as the string**, whatever is in it. -/
theorem scanString?_escaped (s : List Char) (rest : List Char) :
    scanString? (s.flatMap escapeChar ++ '"' :: rest) = some (s, rest) := by
  induction s with
  | nil => rfl
  | cons c s ih => rw [List.flatMap_cons, List.append_assoc, scanString?_escapeChar, ih, Option.map_some]

/-! ### Numbers -/

/-- No number goes on here. -/
def EndsNumber (rest : List Char) : Prop :=
  ∀ c ∈ rest.head?, c.isDigit = false ∧ c ≠ '.' ∧ c ≠ 'e' ∧ c ≠ 'E'

/-- The text of a number is read as the number. -/
def Numeral.ReadsBack (n : Numeral) : Prop := scanNumber? n.text.toList = some (n, [])

instance (n : Numeral) : Decidable n.ReadsBack := inferInstanceAs (Decidable (_ = _))

/-- The digits of an exponent, and the text after them. -/
def exponentDigits? (down : Bool) (cs : List Char) : Option (Option (Bool × List Char) × List Char) :=
  if (cs.takeWhile Char.isDigit).isEmpty then none
  else some (some (down, cs.takeWhile Char.isDigit), cs.dropWhile Char.isDigit)

theorem scanExponent?_cons {e : Char} (he : e = 'e' ∨ e = 'E') (sign : Char) (cs : List Char) :
    scanExponent? (e :: sign :: cs) =
      if sign = '+' then exponentDigits? false cs
      else if sign = '-' then exponentDigits? true cs
      else exponentDigits? false (sign :: cs) := by
  by_cases hplus : sign = '+'
  · simp [scanExponent?, exponentDigits?, he, hplus]
  · by_cases hminus : sign = '-'
    · simp [scanExponent?, exponentDigits?, he, hminus]
    · simp [scanExponent?, exponentDigits?, he, hplus, hminus]

section Following

variable {cs rest : List Char} (hrest : EndsNumber rest)

include hrest

theorem takeWhile_digits_append : (cs ++ rest).takeWhile Char.isDigit = cs.takeWhile Char.isDigit := by
  induction cs with
  | nil =>
    cases rest with
    | nil => rfl
    | cons c rest => simp [(hrest c rfl).1]
  | cons c cs ih => simp [List.takeWhile_cons, ih]

theorem dropWhile_digits_append :
    (cs ++ rest).dropWhile Char.isDigit = cs.dropWhile Char.isDigit ++ rest := by
  induction cs with
  | nil =>
    cases rest with
    | nil => rfl
    | cons c rest => simp [(hrest c rfl).1]
  | cons c cs ih =>
    simp only [List.cons_append, List.dropWhile_cons, ih]
    split <;> rfl

theorem scanExponent?_append {e : Option (Bool × List Char)} (h : scanExponent? cs = some (e, [])) :
    scanExponent? (cs ++ rest) = some (e, rest) := by
  cases cs with
  | nil =>
    cases h
    cases rest with
    | nil => rfl
    | cons c rest =>
      obtain ⟨-, -, hlower, hupper⟩ := hrest c rfl
      simp [scanExponent?, hlower, hupper]
  | cons c cs =>
    by_cases hexponent : c = 'e' ∨ c = 'E'
    · have hdigits (down : Bool) (digits : List Char) :
          exponentDigits? down digits = some (e, []) →
            exponentDigits? down (digits ++ rest) = some (e, rest) := by
        unfold exponentDigits?
        rw [takeWhile_digits_append hrest, dropWhile_digits_append hrest]
        intro h
        split at h
        · cases h
        next hsome =>
          obtain ⟨rfl, hnil⟩ := Prod.mk.inj (Option.some.inj h)
          rw [if_neg hsome, hnil, List.nil_append]
      cases cs with
      | nil => simp [scanExponent?, hexponent] at h
      | cons sign cs =>
        rw [List.cons_append, List.cons_append]
        rw [scanExponent?_cons hexponent] at h ⊢
        by_cases hplus : sign = '+'
        · rw [if_pos hplus] at h ⊢
          exact hdigits _ _ h
        · rw [if_neg hplus] at h ⊢
          by_cases hminus : sign = '-'
          · rw [if_pos hminus] at h ⊢
            exact hdigits _ _ h
          · rw [if_neg hminus] at h ⊢
            exact hdigits _ (sign :: cs) h
    · simp [scanExponent?, hexponent] at h

theorem scanMagnitude?_append {negative : Bool} {n : Numeral} (h : scanMagnitude? negative cs = some (n, [])) :
    scanMagnitude? negative (cs ++ rest) = some (n, rest) := by
  have hpoint : ∀ r, rest ≠ '.' :: r := by
    rintro r rfl
    exact (hrest '.' rfl).2.1 rfl
  unfold scanMagnitude? at h ⊢
  rw [takeWhile_digits_append hrest, dropWhile_digits_append hrest]
  dsimp only at h ⊢
  split at h
  · cases h
  next hwhole =>
    rw [if_neg hwhole]
    split at h
    next fraction hfraction =>
      simp only [hfraction, List.cons_append, takeWhile_digits_append hrest, dropWhile_digits_append hrest]
      split at h
      · cases h
      next hdigits =>
        rw [if_neg hdigits]
        obtain ⟨⟨e, rest'⟩, he, h⟩ := Option.bind_eq_some_iff.mp h
        obtain ⟨x, hx, h⟩ := Option.bind_eq_some_iff.mp h
        cases h
        rw [scanExponent?_append hrest he]
        exact Option.bind_eq_some_iff.mpr ⟨_, rfl, Option.bind_eq_some_iff.mpr ⟨_, hx, rfl⟩⟩
    next hnone =>
      have hnone' : ∀ r, cs.dropWhile Char.isDigit ++ rest ≠ '.' :: r := by
        intro r hr
        cases hcs : cs.dropWhile Char.isDigit with
        | nil => exact hpoint r (by rwa [hcs] at hr)
        | cons c cs' =>
          rw [hcs, List.cons_append] at hr
          exact hnone cs' (hcs.trans (congrArg (· :: cs') (List.cons.inj hr).1))
      obtain ⟨⟨e, rest'⟩, he, h⟩ := Option.bind_eq_some_iff.mp h
      dsimp only at h
      split
      next hr => exact absurd hr (hnone' _)
      · split at h
        next hreal =>
          obtain ⟨x, hx, h⟩ := Option.bind_eq_some_iff.mp h
          cases h
          rw [scanExponent?_append hrest he]
          dsimp only [bind, Option.bind]
          rw [if_pos hreal, hx]
          rfl
        next hreal =>
          cases h
          rw [scanExponent?_append hrest he]
          dsimp only [bind, Option.bind]
          rw [if_neg hreal]
          rfl

/-- A number is read up to its end, whatever follows. -/
theorem scanNumber?_append {n : Numeral} (h : scanNumber? cs = some (n, [])) :
    scanNumber? (cs ++ rest) = some (n, rest) := by
  cases cs with
  | nil => cases h
  | cons c cs =>
    by_cases hminus : c = '-'
    · subst hminus
      exact scanMagnitude?_append hrest h
    · have hunsigned (cs : List Char) : scanNumber? (c :: cs) = scanMagnitude? false (c :: cs) := by
        simp [scanNumber?, hminus]
      rw [List.cons_append, hunsigned] at *
      exact scanMagnitude?_append hrest h

end Following

theorem le_ofDigitChars (cs : List Char) (n : Nat) : n ≤ Nat.ofDigitChars 10 cs n := by
  induction cs generalizing n with
  | nil => exact Nat.le_refl n
  | cons c cs ih =>
    rw [Nat.ofDigitChars_cons]
    have hrest := ih (10 * n + (c.toNat - '0'.toNat))
    omega

/-- Digits are kept exactly as long as their value fits a word. -/
theorem gatherWhole_eq {cs : List Char} {n : Nat} (h : Nat.ofDigitChars 10 cs n ≤ largestWord) :
    gatherWhole false ⟨n, 0⟩ cs = (false, ⟨Nat.ofDigitChars 10 cs n, 0⟩) := by
  induction cs generalizing n with
  | nil => rfl
  | cons c cs ih =>
    have hnext : n * 10 + digitValue c = 10 * n + (c.toNat - '0'.toNat) := by
      rw [Nat.mul_comm]
      rfl
    rw [Nat.ofDigitChars_cons, ← hnext] at h ⊢
    have hfits : ¬largestWord < n * 10 + digitValue c :=
      Nat.not_lt.mpr (Nat.le_trans (le_ofDigitChars cs _) h)
    simp only [gatherWhole, Bool.false_or, decide_eq_true_eq, if_neg hfits]
    exact ih h

/-- A number does not start with a zero, but for zero itself. -/
theorem eq_zero_of_head_toDigits {n : Nat} (h : (Nat.toDigits 10 n).head? = some '0') : n = 0 := by
  induction n using Nat.strongRecOn with
  | ind n ih =>
    by_cases hlt : n < 10
    · have hdigit : ∀ n < 10, Nat.digitChar n = '0' → n = 0 := by decide
      rw [Nat.toDigits_of_lt_base hlt] at h
      exact hdigit n hlt (Option.some.inj h)
    · obtain ⟨d, ds, hdigits⟩ := List.exists_cons_of_ne_nil (Nat.toDigits_ne_nil (n := n / 10) (b := 10))
      rw [Nat.toDigits_of_base_le (by decide) (Nat.not_lt.mp hlt), hdigits] at h
      have hdiv := ih (n / 10) (by omega) (by rw [hdigits]; exact h)
      omega

theorem scanMagnitude?_toDigits (negative : Bool) {n : Nat} (h : n ≤ largestWord) :
    scanMagnitude? negative (Nat.toDigits 10 n) = some (wholeNumeral negative n, []) := by
  have hdigits : ∀ c ∈ Nat.toDigits 10 n, c.isDigit = true :=
    fun c hc => Nat.isDigit_of_mem_toDigits (by decide) (by decide) hc
  have hvalue : Nat.ofDigitChars 10 (Nat.toDigits 10 n) 0 = n := Nat.ofDigitChars_ten_toDigits
  have hwhole : ¬((Nat.toDigits 10 n).isEmpty || ((Nat.toDigits 10 n).head? == some '0' &&
      (Nat.toDigits 10 n).length != 1)) = true := by
    intro hbad
    rcases Bool.or_eq_true_iff.mp hbad with hempty | hzero
    · exact Nat.toDigits_ne_nil (List.isEmpty_iff.mp hempty)
    · obtain ⟨hhead, hlength⟩ := Bool.and_eq_true_iff.mp hzero
      rw [eq_zero_of_head_toDigits (eq_of_beq hhead)] at hlength
      cases hlength
  unfold scanMagnitude?
  rw [List.takeWhile_eq_self_iff.mpr hdigits, List.dropWhile_eq_nil_iff.mpr hdigits]
  dsimp only
  rw [if_neg hwhole, gatherWhole_eq (by rwa [hvalue]), hvalue]
  rfl

theorem scanNumber?_of_ne_minus {cs : List Char} (h : cs.head? ≠ some '-') :
    scanNumber? cs = scanMagnitude? false cs := by
  unfold scanNumber?
  split
  · exact absurd rfl h
  · rfl

/-- Whole numbers that fit a word read back. -/
theorem Numeral.readsBack_whole {n : Int} (hlow : -(2 ^ 63) ≤ n) (hhigh : n < 2 ^ 64) :
    (Numeral.whole n).ReadsBack := by
  have hlargest : largestWord = 2 ^ 64 - 1 := rfl
  unfold ReadsBack
  cases n with
  | ofNat n =>
    have hfits : n ≤ largestWord := by
      have hlt : (n : Int) < 2 ^ 64 := hhigh
      omega
    have htext : (Numeral.whole (Int.ofNat n)).text.toList = Nat.toDigits 10 n := Nat.toList_repr
    have hhead : (Nat.toDigits 10 n).head? ≠ some '-' := by
      intro h
      have hdigit := Nat.isDigit_of_mem_toDigits (by decide) (by decide) (List.mem_of_head? h)
      cases hdigit
    rw [htext, scanNumber?_of_ne_minus hhead]
    exact scanMagnitude?_toDigits false hfits
  | negSucc n =>
    have hfits : n + 1 ≤ 0x8000000000000000 := by omega
    have htext : (Numeral.whole (Int.negSucc n)).text.toList = '-' :: Nat.toDigits 10 (n + 1) :=
      (String.toList_append ..).trans (congrArg ("-".toList ++ ·) Nat.toList_repr)
    have hwhole : wholeNumeral true (n + 1) = .whole (Int.negSucc n) := by
      have hlarge : ¬0x8000000000000000 < n + 1 := Nat.not_lt.mpr hfits
      have hword : (n + 1 == 0 || decide (0x8000000000000000 < n + 1)) = false := by
        rw [decide_eq_false hlarge]
        rfl
      unfold wholeNumeral
      rw [hword]
      rfl
    rw [htext, ← hwhole]
    exact scanMagnitude?_toDigits true (by omega)

/-! ### Tokens -/

/-- Numbers start with a minus sign or a digit. -/
def StartsNumber (c : Char) : Prop := c = '-' ∨ c.isDigit = true

instance (c : Char) : Decidable (StartsNumber c) := inferInstanceAs (Decidable (_ ∨ _))

theorem StartsNumber.isSpace_eq_false {c : Char} (h : StartsNumber c) : isSpace c = false := by
  by_contra hspace
  simp only [isSpace, Bool.not_eq_false, Bool.or_eq_true, beq_iff_eq] at hspace
  rcases hspace with ((rfl | rfl) | rfl) | rfl <;> exact absurd h (by decide)

theorem startsNumber_of_scanNumber? {c : Char} {cs : List Char} {found : Numeral × List Char}
    (h : scanNumber? (c :: cs) = some found) : StartsNumber c := by
  by_cases hminus : c = '-'
  · exact .inl hminus
  · rw [scanNumber?_of_ne_minus (by simpa using hminus)] at h
    by_contra hnot
    have hdigit : c.isDigit = false := by simpa [StartsNumber, hminus] using hnot
    have hnone : scanMagnitude? false (c :: cs) = none := by simp [scanMagnitude?, hdigit]
    rw [hnone] at h
    cases h

theorem next?_number {c : Char} (hc : StartsNumber c) (cs : List Char) :
    Token.next? (c :: cs) = (scanNumber? (c :: cs)).map fun (n, rest) => (.number n, rest) := by
  unfold Token.next?
  unfold StartsNumber at hc
  split
  all_goals first
    | rfl
    | next heq =>
      cases heq
      exact absurd hc (by decide)

/-- The text is cut into the tokens, once there is fuel for all characters. -/
def Scans (cs : List Char) (tokens : List Token) : Prop :=
  ∀ fuel, cs.length ≤ fuel → Token.scanUpTo? fuel cs = some tokens

namespace Scans

variable {cs rest : List Char} {token : Token} {tokens : List Token}

theorem nil : Scans [] [] := fun fuel _ => by cases fuel <;> rfl

theorem space {c : Char} (hc : isSpace c = true) (h : Scans rest tokens) : Scans (c :: rest) tokens := by
  intro fuel hfuel
  cases fuel with
  | zero => cases hfuel
  | succ fuel =>
    rw [Token.scanUpTo?, if_pos hc]
    exact h fuel (Nat.le_of_succ_le_succ hfuel)

theorem spaces (n : Nat) (h : Scans rest tokens) : Scans (List.replicate n ' ' ++ rest) tokens := by
  induction n with
  | zero => exact h
  | succ n ih => exact space rfl ih

theorem newLine (level : Nat) (h : Scans rest tokens) : Scans (newLineThen level rest) tokens :=
  space rfl (spaces _ h)

/-- One token, which ends before what follows. -/
theorem cons {c : Char} (hc : isSpace c = false) (hnext : Token.next? (c :: cs) = some (token, rest))
    (hlength : rest.length ≤ cs.length) (h : Scans rest tokens) : Scans (c :: cs) (token :: tokens) := by
  intro fuel hfuel
  cases fuel with
  | zero => cases hfuel
  | succ fuel =>
    have hfuel := Nat.le_of_succ_le_succ hfuel
    rw [Token.scanUpTo?, hc, hnext]
    simp only [Bool.false_eq_true, if_false, Option.bind_eq_bind, Option.bind_some]
    rw [h fuel (Nat.le_trans hlength hfuel)]
    rfl

theorem word {c : Char} (cs : List Char) (hc : isSpace c = false)
    (hnext : Token.next? (c :: (cs ++ rest)) = some (token, rest)) (h : Scans rest tokens) :
    Scans (c :: (cs ++ rest)) (token :: tokens) :=
  cons hc hnext (by simp) h

theorem string (s : String) (h : Scans rest tokens) : Scans (quoteThen s rest) (.string s :: tokens) := by
  have hnext : Token.next? (quoteThen s rest) = some (.string s, rest) := by
    show (scanString? _).map _ = _
    rw [scanString?_escaped, Option.map_some]
    dsimp only
    rw [String.ofList_toList]
  refine cons rfl hnext ?_ h
  rw [List.length_append, List.length_cons]
  omega

theorem number {n : Numeral} (hn : n.ReadsBack) (hrest : EndsNumber rest) (h : Scans rest tokens) :
    Scans (wordThen n.text rest) (.number n :: tokens) := by
  unfold wordThen
  cases htext : n.text.toList with
  | nil =>
    rw [Numeral.ReadsBack, htext] at hn
    cases hn
  | cons c cs =>
    rw [Numeral.ReadsBack, htext] at hn
    have hstart := startsNumber_of_scanNumber? hn
    refine cons hstart.isSpace_eq_false ?_ (by simp) h
    exact (next?_number hstart _).trans (congrArg (Option.map _) (scanNumber?_append hrest hn))

end Scans

/-! ### Tokens of values -/

mutual

/-- The tokens that a value is written with. -/
def tokens : Json → List Token
  | .null => [.null]
  | .bool b => [.bool b]
  | .number n => [.number n]
  | .string s => [.string s]
  | .array items => .openBracket :: (itemTokens items ++ [Token.closeBracket])
  | .object fields => .openBrace :: (fieldTokens fields ++ [Token.closeBrace])

def itemTokens : List Json → List Token
  | [] => []
  | [item] => tokens item
  | item :: items => tokens item ++ .comma :: itemTokens items

def fieldTokens : List (String × Json) → List Token
  | [] => []
  | [field] => .string field.1 :: .colon :: tokens field.2
  | field :: fields => .string field.1 :: .colon :: (tokens field.2 ++ .comma :: fieldTokens fields)

end

mutual

/-- The numbers in a value. -/
def numerals : Json → List Numeral
  | .number n => [n]
  | .array items => itemNumerals items
  | .object fields => fieldNumerals fields
  | _ => []

def itemNumerals : List Json → List Numeral
  | [] => []
  | item :: items => numerals item ++ itemNumerals items

def fieldNumerals : List (String × Json) → List Numeral
  | [] => []
  | field :: fields => numerals field.2 ++ fieldNumerals fields

end

/-- The text of every number in a value is read as the number. -/
def NumbersReadBack (j : Json) : Prop := ∀ n ∈ j.numerals, n.ReadsBack

theorem mem_itemNumerals {n : Numeral} {items : List Json} :
    n ∈ itemNumerals items ↔ ∃ item ∈ items, n ∈ item.numerals := by
  induction items with
  | nil => simp [itemNumerals]
  | cons item items ih => simp [itemNumerals, ih]

theorem mem_fieldNumerals {n : Numeral} {fields : List (String × Json)} :
    n ∈ fieldNumerals fields ↔ ∃ field ∈ fields, n ∈ field.2.numerals := by
  induction fields with
  | nil => simp [fieldNumerals]
  | cons field fields ih => simp [fieldNumerals, ih]

namespace NumbersReadBack

@[simp] theorem null : NumbersReadBack .null := nofun

@[simp] theorem bool (b : Bool) : NumbersReadBack (.bool b) := nofun

@[simp] theorem string (s : String) : NumbersReadBack (.string s) := nofun

@[simp] theorem number_iff {n : Numeral} : NumbersReadBack (.number n) ↔ n.ReadsBack := by
  simp [NumbersReadBack, numerals]

@[simp] theorem array_iff {items : List Json} :
    NumbersReadBack (.array items) ↔ ∀ item ∈ items, item.NumbersReadBack := by
  simp only [NumbersReadBack, numerals, mem_itemNumerals]
  exact ⟨fun h x hx n hn => h n ⟨x, hx, hn⟩, fun h n ⟨x, hx, hn⟩ => h x hx n hn⟩

@[simp] theorem object_iff {fields : List (String × Json)} :
    NumbersReadBack (.object fields) ↔ ∀ field ∈ fields, field.2.NumbersReadBack := by
  simp only [NumbersReadBack, numerals, mem_fieldNumerals]
  exact ⟨fun h x hx n hn => h n ⟨x, hx, hn⟩, fun h n ⟨x, hx, hn⟩ => h x hx n hn⟩

variable {α : Type}

theorem ofList_iff {write : α → Json} {l : List α} :
    (ofList write l).NumbersReadBack ↔ ∀ a ∈ l, (write a).NumbersReadBack := by
  simp [ofList]

theorem ofOption_iff {write : α → Json} {o : Option α} :
    (ofOption write o).NumbersReadBack ↔ ∀ a ∈ o, (write a).NumbersReadBack := by
  cases o <;> simp [ofOption]

end NumbersReadBack

theorem endsNumber_cons {c : Char} (hc : c.isDigit = false ∧ c ≠ '.' ∧ c ≠ 'e' ∧ c ≠ 'E') (cs : List Char) :
    EndsNumber (c :: cs) := by
  intro d hd
  cases hd
  exact hc

theorem endsNumber_newLine (level : Nat) (rest : List Char) : EndsNumber (newLineThen level rest) :=
  endsNumber_cons (by decide) _

mutual

/-- What is written for a value is cut into its tokens. -/
theorem scans_prettyThen (level : Nat) {rest : List Char} (hrest : EndsNumber rest) {ts : List Token}
    (h : Scans rest ts) :
    (j : Json) → (∀ n ∈ j.numerals, n.ReadsBack) → Scans (j.prettyThen level rest) (j.tokens ++ ts)
  | .null, _ => .word ['u', 'l', 'l'] rfl rfl h
  | .bool true, _ => .word ['r', 'u', 'e'] rfl rfl h
  | .bool false, _ => .word ['a', 'l', 's', 'e'] rfl rfl h
  | .number n, hn => .number (hn n (List.mem_singleton_self n)) hrest h
  | .string s, _ => .string s h
  | .array [], _ => .cons rfl rfl (by simp) (.cons rfl rfl (by simp) h)
  | .object [], _ => .cons rfl rfl (by simp) (.cons rfl rfl (by simp) h)
  | .array (item :: items), hn => by
    have hclose : Scans (newLineThen level (']' :: rest)) (.closeBracket :: ts) :=
      .newLine level (.cons rfl rfl (by simp) h)
    have hitems := scans_prettyItemsThen (level + 1) (endsNumber_newLine level _) hclose (item :: items) hn
    rw [prettyThen, tokens, List.cons_append, List.append_assoc]
    · exact .cons rfl rfl (by simp) hitems
    · simp
  | .object (field :: fields), hn => by
    have hclose : Scans (newLineThen level ('\x7d' :: rest)) (.closeBrace :: ts) :=
      .newLine level (.cons rfl rfl (by simp) h)
    have hfields := scans_prettyFieldsThen (level + 1) (endsNumber_newLine level _) hclose (field :: fields) hn
    rw [prettyThen, tokens, List.cons_append, List.append_assoc]
    · exact .cons rfl rfl (by simp) hfields
    · simp

theorem scans_prettyItemsThen (level : Nat) {rest : List Char} (hrest : EndsNumber rest) {ts : List Token}
    (h : Scans rest ts) :
    (items : List Json) → (∀ n ∈ itemNumerals items, n.ReadsBack) →
      Scans (prettyItemsThen level items rest) (itemTokens items ++ ts)
  | [], _ => h
  | [item], hn => by
    have hitem := fun n hmem => hn n (List.mem_append_left _ hmem)
    exact .newLine level (scans_prettyThen level hrest h item hitem)
  | item :: next :: items, hn => by
    have hitem := fun n hmem => hn n (List.mem_append_left _ hmem)
    have hitems := fun n hmem => hn n (List.mem_append_right _ hmem)
    have hrest := scans_prettyItemsThen level hrest h (next :: items) hitems
    have hcomma : Scans (',' :: prettyItemsThen level (next :: items) rest)
        (.comma :: (itemTokens (next :: items) ++ ts)) := .cons rfl rfl (by simp) hrest
    rw [prettyItemsThen, itemTokens, List.append_assoc, List.cons_append]
    · exact .newLine level (scans_prettyThen level (endsNumber_cons (by decide) _) hcomma item hitem)
    · simp
    · simp

theorem scans_prettyFieldsThen (level : Nat) {rest : List Char} (hrest : EndsNumber rest) {ts : List Token}
    (h : Scans rest ts) :
    (fields : List (String × Json)) → (∀ n ∈ fieldNumerals fields, n.ReadsBack) →
      Scans (prettyFieldsThen level fields rest) (fieldTokens fields ++ ts)
  | [], _ => h
  | [(key, value)], hn => by
    have hvalue := fun n hmem => hn n (List.mem_append_left _ hmem)
    have hrest := scans_prettyThen level hrest h value hvalue
    exact .newLine level (.string key (.cons rfl rfl (by simp) (.space rfl hrest)))
  | (key, value) :: next :: fields, hn => by
    have hvalue := fun n hmem => hn n (List.mem_append_left _ hmem)
    have hfields := fun n hmem => hn n (List.mem_append_right _ hmem)
    have hrest := scans_prettyFieldsThen level hrest h (next :: fields) hfields
    have hcomma : Scans (',' :: prettyFieldsThen level (next :: fields) rest)
        (.comma :: (fieldTokens (next :: fields) ++ ts)) := .cons rfl rfl (by simp) hrest
    have hvalue := scans_prettyThen level (endsNumber_cons (by decide) _) hcomma value hvalue
    rw [prettyFieldsThen, fieldTokens, List.cons_append, List.cons_append, List.append_assoc, List.cons_append]
    · exact .newLine level (.string key (.cons rfl rfl (by simp) (.space rfl hvalue)))
    · simp
    · simp

end

/-! ### Values -/

/-- The token a value starts with. -/
def firstToken : Json → Token
  | .null => .null
  | .bool b => .bool b
  | .number n => .number n
  | .string s => .string s
  | .array _ => .openBracket
  | .object _ => .openBrace

theorem exists_tokens_eq (j : Json) : ∃ ts, j.tokens = j.firstToken :: ts := by
  cases j <;> exact ⟨_, rfl⟩

theorem length_tokens_pos (j : Json) : 0 < j.tokens.length := by
  obtain ⟨ts, hts⟩ := j.exists_tokens_eq
  rw [hts]
  exact Nat.succ_pos _

theorem firstToken_ne_closeBracket (j : Json) : j.firstToken ≠ .closeBracket := by
  cases j <;> nofun

theorem exists_itemTokens_eq (item : Json) (items : List Json) :
    ∃ ts, itemTokens (item :: items) = item.firstToken :: ts := by
  obtain ⟨ts, hts⟩ := item.exists_tokens_eq
  cases items with
  | nil => exact ⟨ts, hts⟩
  | cons next items => exact ⟨_, congrArg (· ++ _) hts⟩

theorem takeValue?_openBracket (fuel : Nat) {t : Token} (ht : t ≠ .closeBracket) (ts : List Token) :
    takeValue? (fuel + 1) (.openBracket :: t :: ts) =
      (takeItems? fuel (t :: ts)).map fun (items, rest) => (.array items, rest) := by
  rw [takeValue?]
  · cases takeItems? fuel (t :: ts) <;> rfl
  · rintro rest ⟨⟩
    exact ht rfl

theorem takeValue?_openBrace (fuel : Nat) (key : String) (ts : List Token) :
    takeValue? (fuel + 1) (.openBrace :: .string key :: ts) =
      (takeFields? fuel (.string key :: ts)).map fun (fields, rest) => (.object fields, rest) := by
  rw [takeValue?]
  · cases takeFields? fuel (.string key :: ts) <;> rfl
  · nofun

mutual

/-- **The tokens of a value are read as the value.** -/
theorem takeValue?_tokens (rest : List Token) :
    (fuel : Nat) → (j : Json) → j.tokens.length ≤ fuel → takeValue? fuel (j.tokens ++ rest) = some (j, rest)
  | 0, j, hfuel => absurd hfuel (Nat.not_le.mpr j.length_tokens_pos)
  | _ + 1, .null, _ => rfl
  | _ + 1, .bool _, _ => rfl
  | _ + 1, .number _, _ => rfl
  | _ + 1, .string _, _ => rfl
  | _ + 1, .array [], _ => rfl
  | _ + 1, .object [], _ => rfl
  | fuel + 1, .array (item :: items), hfuel => by
    have hlength : (itemTokens (item :: items)).length + 1 ≤ fuel := by
      simpa [tokens] using hfuel
    have hitems := takeItems?_tokens rest fuel item items hlength
    obtain ⟨ts, hts⟩ := exists_itemTokens_eq item items
    rw [tokens, List.cons_append, List.append_assoc]
    rw [hts] at hitems ⊢
    exact (takeValue?_openBracket fuel item.firstToken_ne_closeBracket _).trans
      (congrArg (Option.map _) hitems)
  | fuel + 1, .object ((key, value) :: fields), hfuel => by
    have hlength : (fieldTokens ((key, value) :: fields)).length + 1 ≤ fuel := by
      simpa [tokens] using hfuel
    have hfields := takeFields?_tokens rest fuel (key, value) fields hlength
    rw [tokens, List.cons_append, List.append_assoc]
    cases fields with
    | nil => exact (takeValue?_openBrace fuel key _).trans (congrArg (Option.map _) hfields)
    | cons next fields => exact (takeValue?_openBrace fuel key _).trans (congrArg (Option.map _) hfields)

theorem takeItems?_tokens (rest : List Token) :
    (fuel : Nat) → (item : Json) → (items : List Json) → (itemTokens (item :: items)).length + 1 ≤ fuel →
      takeItems? fuel (itemTokens (item :: items) ++ ([Token.closeBracket] ++ rest)) = some (item :: items, rest)
  | fuel + 1, item, [], hfuel => by
    have hitem := takeValue?_tokens (.closeBracket :: rest) fuel item (Nat.le_of_succ_le_succ hfuel)
    rw [takeItems?]
    exact Option.bind_eq_some_iff.mpr ⟨_, hitem, rfl⟩
  | fuel + 1, item, next :: items, hfuel => by
    have hlength : item.tokens.length + (itemTokens (next :: items)).length + 1 ≤ fuel := by
      simp only [itemTokens, List.length_append, List.length_cons] at hfuel
      omega
    have hitem := takeValue?_tokens (.comma :: (itemTokens (next :: items) ++ ([Token.closeBracket] ++ rest))) fuel
      item (by omega)
    have hitems := takeItems?_tokens rest fuel next items (by omega)
    rw [itemTokens, List.append_assoc, List.cons_append, takeItems?]
    · exact Option.bind_eq_some_iff.mpr ⟨_, hitem, Option.bind_eq_some_iff.mpr ⟨_, hitems, rfl⟩⟩
    · simp

theorem takeFields?_tokens (rest : List Token) :
    (fuel : Nat) → (field : String × Json) → (fields : List (String × Json)) →
      (fieldTokens (field :: fields)).length + 1 ≤ fuel →
      takeFields? fuel (fieldTokens (field :: fields) ++ ([Token.closeBrace] ++ rest)) = some (field :: fields, rest)
  | fuel + 1, (key, value), [], hfuel => by
    have hlength : value.tokens.length + 2 ≤ fuel := by
      simp only [fieldTokens, List.length_cons] at hfuel
      omega
    have hvalue := takeValue?_tokens (.closeBrace :: rest) fuel value (by omega)
    rw [fieldTokens, List.cons_append, List.cons_append, takeFields?]
    exact Option.bind_eq_some_iff.mpr ⟨_, hvalue, rfl⟩
  | fuel + 1, (key, value), next :: fields, hfuel => by
    have hlength : value.tokens.length + (fieldTokens (next :: fields)).length + 3 ≤ fuel := by
      simp only [fieldTokens, List.length_append, List.length_cons] at hfuel
      omega
    have hvalue := takeValue?_tokens (.comma :: (fieldTokens (next :: fields) ++ ([Token.closeBrace] ++ rest))) fuel
      value (by omega)
    have hfields := takeFields?_tokens rest fuel next fields (by omega)
    rw [fieldTokens, List.cons_append, List.cons_append, List.append_assoc, List.cons_append, takeFields?]
    · exact Option.bind_eq_some_iff.mpr ⟨_, hvalue, Option.bind_eq_some_iff.mpr ⟨_, hfields, rfl⟩⟩
    · simp

end

theorem ofTokens?_tokens (j : Json) : ofTokens? j.tokens = some j := by
  have hvalue := takeValue?_tokens [] (2 * j.tokens.length + 1) j (by omega)
  rw [List.append_nil] at hvalue
  rw [ofTokens?, hvalue]

/-- **Indented text is read back as the value it was written for**, if the texts of its numbers are. -/
theorem parse?_pretty {j : Json} (h : j.NumbersReadBack) : parse? j.pretty = some j := by
  have hscans : Scans (j.prettyThen 0 []) (j.tokens ++ []) := scans_prettyThen 0 (by rintro c ⟨⟩) .nil j h
  rw [parse?, pretty, String.toList_ofList, Token.scan?, hscans _ (Nat.le_refl _), List.append_nil]
  exact j.ofTokens?_tokens

end TreeScribe.Json

