import TreeScribe.Proofs.Layout.Shift
import TreeScribe.Render.Literal

/-! Reading quoted literals.

A reader of code scans a literal from its opening quote, skips whatever comes after a backslash, and takes
the next quote for the closing one; what stands between the quotes is then freed of its escapes. Escaped
texts are read back, and only the last quote closes them (`escape_reversible`), so that a string or a
character is read from its written literal (`literalValue?_written`). -/
namespace TreeScribe.Render

/-! ### Reading escapes -/

/-- The character that a letter after a backslash stands for. -/
def escaped? (quote c : Char) : Option Char :=
  if c = '\\' then some '\\'
  else if c = 'n' then some '\n'
  else if c = 'r' then some '\r'
  else if c = 't' then some '\t'
  else if c = '0' then some '\x00'
  else if c = quote then some quote
  else none

/-- The text without escapes. There are no other escapes than these, and no backslash ends a text. -/
def unescape? (quote : Char) : List Char → Option (List Char)
  | [] => some []
  | ['\\'] => none
  | '\\' :: c :: rest => do return (← escaped? quote c) :: (← unescape? quote rest)
  | c :: rest => do return c :: (← unescape? quote rest)

/-- What stands before the first quote that is not skipped, and what comes after it. The character after a
backslash is skipped. -/
def closing? (quote : Char) : List Char → Option (List Char × List Char)
  | [] => none
  | '\\' :: c :: rest => do
    let (text, after) ← closing? quote rest
    return ('\\' :: c :: text, after)
  | c :: rest =>
    if c = quote then some ([], rest)
    else do
      let (text, after) ← closing? quote rest
      return (c :: text, after)

/-- No backslash, and not a letter that has a meaning of its own after one. -/
def IsMark (quote : Char) : Prop := quote ∉ ['\\', 'n', 'r', 't', '0']

instance : DecidablePred IsMark := fun quote => inferInstanceAs (Decidable (quote ∉ _))

theorem escaped?_mark {quote : Char} (hquote : IsMark quote) : escaped? quote quote = some quote := by
  simp only [IsMark, List.mem_cons, List.not_mem_nil, or_false, not_or] at hquote
  obtain ⟨hbackslash, hn, hr, ht, hzero⟩ := hquote
  rw [escaped?, if_neg hbackslash, if_neg hn, if_neg hr, if_neg ht, if_neg hzero, if_pos rfl]

/-- A character is written as itself, or as a backslash with a letter that stands for it. -/
theorem escapeChar_cases {quote : Char} (hquote : IsMark quote) (c : Char) :
    (∃ letter, escapeChar quote c = ['\\', letter] ∧ letter ≠ '\n' ∧ letter ≠ '\r' ∧
      escaped? quote letter = some c) ∨
    escapeChar quote c = [c] ∧ c ≠ '\\' ∧ c ≠ quote ∧ c ≠ '\n' ∧ c ≠ '\r' := by
  simp only [escapeChar, beq_iff_eq]
  by_cases hbackslash : c = '\\'
  · subst hbackslash
    exact .inl ⟨'\\', rfl, by decide, by decide, rfl⟩
  by_cases hnewline : c = '\n'
  · subst hnewline
    exact .inl ⟨'n', rfl, by decide, by decide, rfl⟩
  by_cases hreturn : c = '\r'
  · subst hreturn
    exact .inl ⟨'r', rfl, by decide, by decide, rfl⟩
  by_cases htab : c = '\t'
  · subst htab
    exact .inl ⟨'t', rfl, by decide, by decide, rfl⟩
  by_cases hnull : c = '\x00'
  · subst hnull
    exact .inl ⟨'0', rfl, by decide, by decide, rfl⟩
  rw [if_neg hbackslash, if_neg hnewline, if_neg hreturn, if_neg htab, if_neg hnull]
  by_cases hmark : c = quote
  · subst hmark
    exact .inl ⟨c, if_pos rfl, hnewline, hreturn, escaped?_mark hquote⟩
  · exact .inr ⟨if_neg hmark, hbackslash, hmark, hnewline, hreturn⟩

section Mark

variable {quote : Char} (hquote : IsMark quote)

include hquote

theorem unescape?_escapeChar (c : Char) (rest : List Char) :
    unescape? quote (escapeChar quote c ++ rest) = (unescape? quote rest).map (c :: ·) := by
  obtain ⟨letter, hwritten, -, -, hletter⟩ | ⟨hwritten, hbackslash, -, -, -⟩ := escapeChar_cases hquote c
  · rw [hwritten, List.cons_append, List.singleton_append, unescape?, hletter]
    cases unescape? quote rest <;> rfl
  · rw [hwritten, List.singleton_append, unescape?]
    · cases unescape? quote rest <;> rfl
    · exact fun h => absurd h hbackslash
    · exact fun _ _ h => absurd h hbackslash

theorem closing?_escapeChar (c : Char) (rest : List Char) :
    closing? quote (escapeChar quote c ++ rest) =
      (closing? quote rest).map fun p => (escapeChar quote c ++ p.1, p.2) := by
  obtain ⟨letter, hwritten, -⟩ | ⟨hwritten, hbackslash, hmark, -, -⟩ := escapeChar_cases hquote c
  · rw [hwritten, List.cons_append, List.singleton_append, closing?]
    cases closing? quote rest <;> rfl
  · rw [hwritten, List.singleton_append, closing?, if_neg hmark]
    · cases closing? quote rest <;> rfl
    · exact fun _ _ h => absurd h hbackslash

theorem unescape?_escape (cs : List Char) : unescape? quote (escape quote cs) = some cs := by
  induction cs with
  | nil => rfl
  | cons c cs ih =>
    show unescape? quote (escapeChar quote c ++ escape quote cs) = _
    rw [unescape?_escapeChar hquote, ih, Option.map_some]

/-- The quote after an escaped text closes it, whatever follows. -/
theorem closing?_escape (cs rest : List Char) :
    closing? quote (escape quote cs ++ quote :: rest) = some (escape quote cs, rest) := by
  induction cs with
  | nil =>
    have hbackslash : quote ≠ '\\' := fun h => hquote (h ▸ List.mem_cons_self ..)
    show closing? quote (quote :: rest) = _
    rw [closing?, if_pos rfl]
    · rfl
    · exact fun _ _ h => absurd h hbackslash
  | cons c cs ih =>
    show closing? quote (escapeChar quote c ++ escape quote cs ++ quote :: rest) = _
    rw [List.append_assoc, closing?_escapeChar hquote, ih, Option.map_some]
    rfl

theorem notMem_escape (cs : List Char) : '\n' ∉ escape quote cs ∧ '\r' ∉ escape quote cs := by
  have hchar (c : Char) : '\n' ∉ escapeChar quote c ∧ '\r' ∉ escapeChar quote c := by
    obtain ⟨letter, hwritten, hnewline, hreturn, -⟩ | ⟨hwritten, -, -, hnewline, hreturn⟩ :=
      escapeChar_cases hquote c
    · rw [hwritten]
      simp [hnewline.symm, hreturn.symm]
    · rw [hwritten]
      simp [hnewline.symm, hreturn.symm]
  constructor
  · intro hmem
    obtain ⟨c, -, hc⟩ := List.mem_flatMap.mp hmem
    exact (hchar c).1 hc
  · intro hmem
    obtain ⟨c, -, hc⟩ := List.mem_flatMap.mp hmem
    exact (hchar c).2 hc

end Mark

/-- **Escaping is taken back by reading**, for both sorts of quotes and every text. What is escaped has no line
break in it, and of a text in quotes the scan takes the last character, and no earlier one, for the closing
quote. -/
theorem escape_reversible {quote : Char} (hquote : quote = '"' ∨ quote = '\'') (cs : List Char) :
    unescape? quote (escape quote cs) = some cs ∧
    ('\n' ∉ escape quote cs ∧ '\r' ∉ escape quote cs) ∧
    ∃ scanned, (quotedLiteral quote cs).toList = quote :: scanned ∧
      closing? quote scanned = some (escape quote cs, []) := by
  have hmark : IsMark quote := by obtain rfl | rfl := hquote <;> decide
  refine ⟨unescape?_escape hmark cs, notMem_escape hmark cs, escape quote cs ++ [quote], ?_,
    closing?_escape hmark cs []⟩
  rw [quotedLiteral, String.toList_ofList, List.cons_append]

/-- Backslashes before quotes of both sorts, and a letter that would be an escape. -/
theorem escape_reversible_backslashes :
    let cs := "\\\"'\\n\n\\".toList
    ('"' = '"' ∨ '"' = '\'') ∧ unescape? '"' (escape '"' cs) = some cs ∧
      escape '"' cs = "\\\\\\\"'\\\\n\\n\\\\".toList := by
  intro cs
  have hquote : '"' = '"' ∨ '"' = '\'' := .inl rfl
  exact ⟨hquote, (escape_reversible hquote cs).1, by decide⟩

/-! ### Reading literals -/

/-- The string or character that a literal spells. -/
def literalValue? : List Char → Option ConstantValue
  | '"' :: scanned =>
    match closing? '"' scanned with
    | some (text, []) => (unescape? '"' text).map fun cs => .string (String.ofList cs)
    | _ => none
  | '\'' :: scanned =>
    match closing? '\'' scanned with
    | some (text, []) =>
      match unescape? '\'' text with
      | some [c] => some (.char c)
      | _ => none
    | _ => none
  | _ => none

theorem raw_quotedLiteral {env : Env} {v : ConstantValue} {ty : TypeRef} {quote : Char} {cs : List Char}
    (h : literalAtoms env v ty = Atoms.token .text (quotedLiteral quote cs)) (format : Format)
    (indent : String) :
    ((literal env v ty).written format indent).raw.toList = quote :: (escape quote cs ++ [quote]) := by
  have hatoms : (literal env v ty).atoms = Atoms.token .text (quotedLiteral quote cs) := h
  have hraw : ((literal env v ty).written format indent).raw.toList =
      (literal env v ty).atoms.rawText indent := (Doc.shows_written _ format indent).raw
  rw [hraw, Atoms.rawText_level, hatoms, Atoms.chars_token, quotedLiteral, String.toList_ofList,
    List.cons_append]
  rw [hatoms]
  exact Atoms.indent_notMem_token _ _

/-- **A string or a character is read from its written literal.** -/
theorem literalValue?_written (env : Env) (ty : TypeRef) (format : Format) (indent : String) :
    (∀ s, literalValue? ((literal env (.string s) ty).written format indent).raw.toList = some (.string s)) ∧
    ∀ c, literalValue? ((literal env (.char c) ty).written format indent).raw.toList = some (.char c) := by
  constructor
  · intro s
    have hmark : IsMark '"' := by decide
    rw [raw_quotedLiteral rfl, literalValue?, closing?_escape hmark]
    dsimp only
    rw [unescape?_escape hmark, Option.map_some, String.ofList_toList]
  · intro c
    have hmark : IsMark '\'' := by decide
    rw [raw_quotedLiteral rfl, literalValue?, closing?_escape hmark]
    dsimp only
    rw [unescape?_escape hmark]

end TreeScribe.Render
