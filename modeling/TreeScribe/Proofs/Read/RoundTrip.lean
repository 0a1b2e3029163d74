import TreeScribe.Proofs.Read.Operators
import TreeScribe.Proofs.Render.Operand

/-! Operators that are written are read back.

`HasOperators` picks out the expressions that consist of names, whole numbers and operators, and
the tree of operators of each. What is made of such an expression scans as the lexemes of its
tree, whatever the layout (`reads_value`), and so the text is read as the tree, up to how `&&`
and `||` are nested (`read_text`). -/
namespace TreeScribe

open Render Read

/-! ### The expressions -/

/-- A name as programs have it. It may be a reserved word. -/
def IsIdentifier (name : String) : Prop :=
  ∃ c cs, name.toList = c :: cs ∧ c.isDigit = false ∧ ∀ d ∈ c :: cs, isNameChar d = true

/-- The operator as which a unary operator is written: what negates a number inverts its bits. -/
def shownUnary (ty : TypeRef) : UnaryOp → UnaryOp
  | .not => if ty.isBool then .not else .onesComplement
  | op => op

/-- The expression consists of names, whole numbers and operators, as in the tree. -/
inductive HasOperators : Expr → OpTree → Prop where
  | name {node : Nat} {v : Variable} :
      IsIdentifier v.name → HasOperators (.mk node (.parameter v)) (.name v.name)
  | number {node : Nat} (n : Nat) (ty : TypeRef) :
      HasOperators (.mk node (.constant ⟨.int n, ty⟩)) (.number n (ty = .long))
  | unary {node : Nat} {op : UnaryOp} {e : Expr} {t : OpTree} (ty : TypeRef) :
      OpTree.readsUnary op = true → HasOperators e t →
        HasOperators (.mk node (.unary op (some e) ty none)) (.unary (shownUnary ty op) t)
  | binary {node : Nat} {op : BinaryOp} {l r : Expr} {lt rt : OpTree} (ty : TypeRef) :
      op.isAssignment = false → HasOperators l lt → HasOperators r rt →
        HasOperators (.mk node (.binary op l r ty none)) (.binary op lt rt)
  | conditional {node : Nat} {c a b : Expr} {ct yt nt : OpTree} {ty : TypeRef} :
      ty.isVoid = false → HasOperators c ct → HasOperators a yt → HasOperators b nt →
        HasOperators (.mk node (.conditional c a b ty)) (.conditional ct yt nt)

namespace HasOperators

variable {e : Expr} {t : OpTree}

theorem isReadable (h : HasOperators e t) : t.IsReadable := by
  induction h with
  | name _ => trivial
  | number _ _ => trivial
  | @unary _ op _ _ ty hop _ ih =>
    refine ⟨?_, ih⟩
    unfold shownUnary
    split
    · split <;> rfl
    · exact hop
  | binary _ hop _ _ ihl ihr => exact ⟨hop, ihl, ihr⟩
  | conditional _ _ _ _ ihc iha ihb => exact ⟨ihc, iha, ihb⟩

theorem level_eq (h : HasOperators e t) : e.level = t.level := by
  cases h with
  | name _ => exact Node.level_mk ..
  | number n _ =>
    rw [Node.level_mk]
    rfl
  | @unary _ op _ _ ty hop _ =>
    rw [Node.level_mk]
    cases op with
    | not =>
      unfold shownUnary
      cases ty.isBool <;> rfl
    | negate | negateChecked | unaryPlus | onesComplement | preIncrementAssign
    | preDecrementAssign | postIncrementAssign | postDecrementAssign => rfl
    | _ => cases hop
  | @binary _ op _ _ _ _ ty hop _ _ =>
    rw [Node.level_mk]
    simp [OpTree.level, hop, Node.callsMethod]
  | conditional _ _ _ _ => exact Node.level_mk ..

theorem startsWithSign_eq (h : HasOperators e t) (isMinus : Bool) :
    startsWithSign isMinus e = t.startsWithSign isMinus := by
  cases h with
  | name _ => rfl
  | number n _ => cases isMinus <;> rfl
  | @unary _ op _ _ ty hop _ =>
    cases op with
    | not =>
      unfold shownUnary
      cases ty.isBool <;> rfl
    | negate | negateChecked | unaryPlus | onesComplement | preIncrementAssign
    | preDecrementAssign | postIncrementAssign | postDecrementAssign => rfl
    | _ => cases hop
  | binary _ _ _ _ => rfl
  | conditional _ _ _ _ => rfl

theorem rendersAsStatements_eq (h : HasOperators e t) : e.rendersAsStatements = false := by
  induction h with
  | conditional hty _ _ _ _ iha ihb =>
    rw [Node.rendersAsStatements_mk]
    simp [Form.map, Form.isStatement, hty, iha, ihb]
  | _ =>
    rw [Node.rendersAsStatements_mk]
    rfl

end HasOperators

/-! ### Scanning what is written -/

namespace Read

/-- The first character, if it belongs to a sign. -/
def leadingChar? : List Lexeme → Option Char
  | .sign s :: _ => s.toList.head?
  | _ => none

/-- The lexemes may follow: they do not run together with what is pending. -/
structure Lexer.Admits (l : Lexer) (ls : List Lexeme) : Prop where
  isOpen : l.IsOpen
  splits : ∀ c ∈ leadingChar? ls, l.Splits c

/-- The atoms are read as the lexemes, and may stand wherever these may. -/
def Reads (as : Atoms) (ls : List Lexeme) : Prop :=
  ∀ l : Lexer, l.Admits ls → (scan l as).lexemes = l.lexemes ++ ls ∧ (scan l as).IsClosed

theorem Lexer.admits_of_nothing (done ls : List Lexeme) : Admits ⟨done, .nothing⟩ ls :=
  ⟨.inl rfl, fun _ _ _ h => nomatch h⟩

theorem Lexer.admits_of_bracket (done ls : List Lexeme) {c : Char} (hc : c = '(' ∨ c = '[') :
    Admits ⟨done, .sign c⟩ ls := by
  refine ⟨.inr ⟨c, rfl⟩, fun d _ e he => ?_⟩
  obtain rfl : c = e := by simpa using he
  rcases hc with rfl | rfl <;> simp [doubleSigns]

theorem Lexer.isClosed_of_nothing (done : List Lexeme) : IsClosed ⟨done, .nothing⟩ :=
  fun _ h => nomatch h

theorem leadingChar?_append {ls : List Lexeme} (h : ls ≠ []) (ms : List Lexeme) :
    leadingChar? (ls ++ ms) = leadingChar? ls := by
  cases ls with
  | nil => exact absurd rfl h
  | cons x ls => cases x <;> rfl

theorem Lexer.Admits.of_append {l : Lexer} {ls ms : List Lexeme} (h : l.Admits (ls ++ ms))
    (hne : ls ≠ []) : l.Admits ls :=
  ⟨h.isOpen, leadingChar?_append hne ms ▸ h.splits⟩

namespace Reads

variable {as bs : Atoms} {ls rs : List Lexeme}

/-- A bracket after something that is closed. -/
theorem bracketed {o c : Char} (ho : o = '(' ∨ o = '[') (hc : c = ')' ∨ c = ']') (h : Reads as ls)
    {l : Lexer} (hl : l.Splits o) :
    (scan l (Atoms.bracketed (String.ofList [o]) (String.ofList [c]) as)).lexemes =
        l.lexemes ++ ([Lexeme.sign (String.ofList [o])] ++ ls ++ [Lexeme.sign (String.ofList [c])]) ∧
      (scan l (Atoms.bracketed (String.ofList [o]) (String.ofList [c]) as)).IsClosed := by
  have hopen : l.feed (String.ofList [o]).toList = ⟨l.lexemes, .sign o⟩ := by
    rw [String.toList_ofList]
    exact Lexer.feedChar_sign (by rcases ho with rfl | rfl <;> decide) hl
  obtain ⟨hlexemes, hclosed⟩ := h _ (Lexer.admits_of_bracket l.lexemes ls ho)
  have hclose : (scan ⟨l.lexemes, .sign o⟩ as).feed (String.ofList [c]).toList =
      ⟨(scan ⟨l.lexemes, .sign o⟩ as).lexemes, .sign c⟩ := by
    rw [String.toList_ofList]
    exact Lexer.feedChar_sign (by rcases hc with rfl | rfl <;> decide) (hclosed.splits c)
  rw [scan_bracketed, hopen, hclose]
  refine ⟨?_, fun d hd => ?_⟩
  · rw [hlexemes]
    simp [Lexer.lexemes, Pending.lexemes]
  · obtain rfl : c = d := by simpa using hd
    exact hc

theorem parens (h : Reads as ls) : Reads (Atoms.parens as) (enclosed true ls) :=
  fun _ hl => h.bracketed (.inl rfl) (.inl rfl) (hl.splits '(' rfl)

/-- A name or a word, in atoms of whatever kind. -/
theorem word {s : String} (has : ∀ l, scan l as = l.feed s.toList) {x : Lexeme} {c : Char}
    {cs : List Char} (hs : s.toList = c :: cs) (hc : isNameChar c = true ∨ c = '@')
    (hdigit : c.isDigit = false) (hcs : ∀ d ∈ cs, isNameChar d = true)
    (hx : ofName (c :: cs) = x) : Reads as [x] := by
  intro l hl
  rw [has, hs, Lexer.feed_name hl.isOpen hc hdigit hcs, ← hx]
  exact ⟨rfl, fun d hd => nomatch hd⟩

theorem name (node : Nat) (ty : TypeRef) {name : String} (h : IsIdentifier name) :
    Reads (Atoms.mention node (writtenName ty name)) [.name name] := by
  obtain ⟨c, cs, hname, hdigit, hchars⟩ := h
  have hc : isNameChar c = true := hchars c (List.mem_cons_self ..)
  have hstring : String.ofList (c :: cs) = name := by rw [← hname, String.ofList_toList]
  have hempty : name.isEmpty = false := by
    rw [← hstring]
    simp
  unfold writtenName
  simp only [hempty, Bool.false_eq_true, if_false]
  split
  next hreserved =>
    have htoList : ("@" ++ name).toList = '@' :: c :: cs := by
      rw [String.toList_append, hname]
      rfl
    exact word (scan_mention · node _) htoList (.inr rfl) rfl hchars (congrArg Lexeme.name hstring)
  next hreserved =>
    have hat : c ≠ '@' := by
      rintro rfl
      revert hc
      decide
    have hlexeme : ofName (c :: cs) = .name name := by
      unfold ofName
      split
      next heq => cases heq; exact absurd rfl hat
      · rw [hstring, if_neg hreserved]
    exact word (scan_mention · node _) hname (.inl hc) hdigit
      (fun d hd => hchars d (List.mem_cons_of_mem _ hd)) hlexeme

theorem number (n : Nat) (ty : TypeRef) :
    Reads (Atoms.token .numeric (toString (n : Int) ++ integerSuffix ty true))
      [.number n (ty = .long)] := by
  have hdigits : (toString (n : Int)).toList = Nat.toDigits 10 n := by
    rw [Int.toString_eq_repr]
    exact Nat.toList_repr
  intro l hl
  rw [scan_token, String.toList_append, hdigits, Lexer.feed_append, Lexer.feed_number hl.isOpen]
  unfold integerSuffix
  by_cases hlong : ty = .long
  · simp only [hlong, if_true, decide_true]
    exact ⟨rfl, fun d hd => nomatch hd⟩
  · simp only [hlong, if_true, if_false, decide_false]
    exact ⟨rfl, fun d hd => nomatch hd⟩

/-- Two operands with a sign between them, in blanks of whatever kind. -/
theorem between (hl : Reads as ls) (hr : Reads bs rs) (hne : ls ≠ []) {s : String} {sign : Atoms}
    (hsign : ∀ l : Lexer, l.IsClosed → scan l sign = ⟨l.lexemes ++ [Lexeme.sign s], .nothing⟩) :
    Reads (as ++ sign ++ bs) (ls ++ [Lexeme.sign s] ++ rs) := by
  intro l hadmits
  rw [List.append_assoc] at hadmits
  obtain ⟨hleft, hclosed⟩ := hl l (hadmits.of_append hne)
  rw [scan_append, scan_append, hsign _ hclosed, hleft]
  obtain ⟨hright, hclosed⟩ := hr _ (Lexer.admits_of_nothing (l.lexemes ++ ls ++ [Lexeme.sign s]) rs)
  refine ⟨?_, hclosed⟩
  rw [hright]
  simp [Lexer.lexemes, Pending.lexemes]

/-- `left op right`, with the right operand on the same line or on the next one. -/
theorem operation (hl : Reads as ls) (hr : Reads bs rs) (hne : ls ≠ []) {op : BinaryOp}
    (hop : Lexer.isSign op.symbol = true) (wraps : Bool) :
    Reads (as ++ Atoms.space ++ Atoms.operator op.level op.symbol ++
        if wraps then Atoms.indented (Atoms.newline ++ bs) else Atoms.space ++ bs)
      (ls ++ [Lexeme.sign op.symbol] ++ rs) := by
  have hsign (blank : Atoms) (hblank : ∀ l, scan l blank = ⟨l.lexemes, .nothing⟩) (l : Lexer) :
      scan l (Atoms.space ++ Atoms.operator op.level op.symbol ++ blank) =
        ⟨l.lexemes ++ [Lexeme.sign op.symbol], .nothing⟩ := by
    rw [scan_append, scan_append, scan_space, scan_operator, hblank,
      Lexer.lexemes_feed_sign_of_nothing hop]
  intro l hadmits
  cases wraps with
  | true =>
    have hread := hl.between hr hne (fun l _ => hsign Atoms.newline scan_newline l) l hadmits
    simpa using hread
  | false =>
    have hread := hl.between hr hne (fun l _ => hsign Atoms.space scan_space l) l hadmits
    simpa using hread

/-- A sign with a blank before it, and one that is part of its text after it. -/
theorem scan_blank_operator (l : Lexer) {blank : Atoms}
    (hblank : ∀ l, scan l blank = ⟨l.lexemes, .nothing⟩) (level : Level) {c : Char}
    (hc : c ∈ Lexer.signChars) :
    scan l (blank ++ Atoms.operator level (String.ofList [c, ' '])) =
      ⟨l.lexemes ++ [Lexeme.sign (String.ofList [c])], .nothing⟩ := by
  have hsplits : Lexer.Splits ⟨l.lexemes, .nothing⟩ c := nofun
  rw [scan_append, hblank, scan_operator, String.toList_ofList, Lexer.feed_cons,
    Lexer.feedChar_sign hc hsplits, Lexer.feed_cons, Lexer.feedChar_blank _ rfl]
  simp [Lexer.lexemes, Pending.lexemes]

theorem scan_spaced_operator (l : Lexer) (level : Level) {c : Char} (hc : c ∈ Lexer.signChars) :
    scan l (Atoms.operator level (String.ofList [' ', c, ' '])) =
      ⟨l.lexemes ++ [Lexeme.sign (String.ofList [c])], .nothing⟩ := by
  have hread := scan_blank_operator l scan_space level hc
  rw [scan_append, scan_space, scan_operator] at hread
  rw [← hread, scan_operator, String.toList_ofList, String.toList_ofList, Lexer.feed_cons,
    Lexer.feedChar_blank _ rfl]

/-- `test ? a : b`, on one line or on three. -/
theorem conditional {cs : Atoms} {ts : List Lexeme} (hc : Reads cs ts) (ha : Reads as ls)
    (hb : Reads bs rs) (hts : ts ≠ []) (wraps : Prop) [Decidable wraps] :
    Reads (cs ++
        if wraps then
          Atoms.indented (Atoms.newline ++ Atoms.operator Level.conditional "? " ++ as ++
            Atoms.newline ++ Atoms.operator Level.conditional ": " ++ bs)
        else
          Atoms.operator Level.conditional " ? " ++ as ++
            Atoms.operator Level.conditional " : " ++ bs)
      (ts ++ [Lexeme.sign "?"] ++ ls ++ [Lexeme.sign ":"] ++ rs) := by
  have hne : ts ++ [Lexeme.sign "?"] ++ ls ≠ [] := by simp
  have hsigns (question colon : Atoms)
      (hquestion : ∀ l, scan l question = ⟨l.lexemes ++ [Lexeme.sign "?"], .nothing⟩)
      (hcolon : ∀ l, scan l colon = ⟨l.lexemes ++ [Lexeme.sign ":"], .nothing⟩) :
      Reads (cs ++ question ++ as ++ colon ++ bs) (ts ++ [Lexeme.sign "?"] ++ ls ++ [Lexeme.sign ":"] ++ rs) :=
    (hc.between ha hts fun l _ => hquestion l).between hb hne fun l _ => hcolon l
  intro l hadmits
  by_cases hwraps : wraps
  · have hread := hsigns _ _
      (fun l => scan_blank_operator l scan_newline Level.conditional (c := '?') (by decide))
      (fun l => scan_blank_operator l scan_newline Level.conditional (c := ':') (by decide))
      l hadmits
    simpa [hwraps] using hread
  · have hread := hsigns _ _
      (fun l => scan_spaced_operator l Level.conditional (c := '?') (by decide))
      (fun l => scan_spaced_operator l Level.conditional (c := ':') (by decide)) l hadmits
    simpa [hwraps] using hread

theorem checked (h : Reads as ls) :
    Reads (Atoms.keyword "checked" ++ Atoms.parens as) (Written.checked ls) := by
  have hword : Reads (Atoms.keyword "checked") [.word "checked"] :=
    word (scan_token · _ _) rfl (.inl (by decide)) (by decide) (by decide) (by decide)
  intro l hadmits
  obtain ⟨hlexemes, hclosed⟩ := hword l ⟨hadmits.isOpen, nofun⟩
  obtain ⟨hinner, hend⟩ := h.bracketed (.inl rfl) (.inl rfl) (hclosed.splits '(')
  rw [scan_append]
  refine ⟨?_, hend⟩
  refine hinner.trans ?_
  rw [hlexemes]
  simp [Written.checked]

theorem index (hl : Reads as ls) (hr : Reads bs rs) (hne : ls ≠ []) :
    Reads (as ++ Atoms.bracketed "[" "]" bs) (ls ++ [Lexeme.sign "["] ++ rs ++ [Lexeme.sign "]"]) := by
  intro l hadmits
  rw [List.append_assoc, List.append_assoc] at hadmits
  obtain ⟨hleft, hclosed⟩ := hl l (hadmits.of_append hne)
  obtain ⟨hinner, hend⟩ := hr.bracketed (.inr rfl) (.inr rfl) (hclosed.splits '[')
  rw [scan_append]
  refine ⟨?_, hend⟩
  refine hinner.trans ?_
  rw [hleft]
  simp

/-- Notes are not read. -/
theorem note (h : Reads bs ls) (n : Note) : Reads (Atoms.note n ++ bs) ls := h

theorem noted {d : Doc} (h : Reads d.atoms ls) (node : Nat) : Reads (d.noted node).atoms ls := by
  unfold Doc.noted
  split
  · exact h
  · intro l hadmits
    rw [scan_append, scan_note]
    exact h l hadmits

/-- `Math.Pow(base, exponent)` -/
theorem power (hl : Reads as ls) (hr : Reads bs rs) (hne : ls ≠ []) (cls : TokenClass) :
    Reads (Atoms.token cls "Math" ++ Atoms.text "." ++ Atoms.methodName "Pow" ++
        Atoms.parens (as ++ Atoms.text ", " ++ bs))
      ([Lexeme.name "Math", .sign ".", .name "Pow", .sign "("] ++ ls ++ [Lexeme.sign ","] ++ rs ++
        [Lexeme.sign ")"]) := by
  have hcomma (l : Lexer) (hl : l.IsClosed) :
      scan l (Atoms.text ", ") = ⟨l.lexemes ++ [Lexeme.sign ","], .nothing⟩ := by
    rw [scan_text]
    show (l.feedChar ',').feedChar ' ' = _
    rw [Lexer.feedChar_sign (by decide) (hl.splits ','), Lexer.feedChar_blank _ rfl]
    rfl
  have harguments := hl.between hr hne hcomma
  have hclass : Reads (Atoms.token cls "Math") [.name "Math"] :=
    word (scan_token · _ _) rfl (.inl (by decide)) (by decide) (by decide) (by decide)
  have hmethod : Reads (Atoms.methodName "Pow") [.name "Pow"] :=
    word (scan_token · _ _) rfl (.inl (by decide)) (by decide) (by decide) (by decide)
  intro l hadmits
  obtain ⟨hlexemes, hclosed⟩ := hclass l ⟨hadmits.isOpen, nofun⟩
  have hdot : scan (scan l (Atoms.token cls "Math")) (Atoms.text ".") =
      ⟨(scan l (Atoms.token cls "Math")).lexemes, .sign '.'⟩ := by
    rw [scan_text]
    exact Lexer.feedChar_sign (by decide) (hclosed.splits '.')
  rw [hlexemes] at hdot
  obtain ⟨hlexemes, hclosed⟩ := hmethod ⟨l.lexemes ++ [Lexeme.name "Math"], .sign '.'⟩
    ⟨.inr ⟨'.', rfl⟩, nofun⟩
  obtain ⟨hinner, hend⟩ := harguments.bracketed (.inl rfl) (.inl rfl) (hclosed.splits '(')
  rw [scan_append, scan_append, scan_append, hdot]
  refine ⟨?_, hend⟩
  refine hinner.trans ?_
  rw [hlexemes]
  simp [Lexer.lexemes, Pending.lexemes]

/-- A sign of one character before its operand, with which it makes no other sign. -/
theorem before (h : Reads as ls) {c : Char} (hc : c ∈ Lexer.signChars)
    (hsplits : ∀ d ∈ leadingChar? ls, (c, d) ∉ Lexer.doubleSigns) (level : Level) :
    Reads (Atoms.operator level (String.ofList [c]) ++ as)
      ([Lexeme.sign (String.ofList [c])] ++ ls) := by
  intro l hadmits
  have hsign : scan l (Atoms.operator level (String.ofList [c])) = ⟨l.lexemes, .sign c⟩ := by
    rw [scan_operator, String.toList_ofList]
    exact Lexer.feedChar_sign hc (hadmits.splits c (by simp [leadingChar?]))
  have hnext : Lexer.Admits ⟨l.lexemes, .sign c⟩ ls := by
    refine ⟨.inr ⟨c, rfl⟩, fun d hd e he => ?_⟩
    obtain rfl : c = e := by simpa using he
    exact hsplits d hd
  obtain ⟨hlexemes, hclosed⟩ := h _ hnext
  rw [scan_append, hsign]
  refine ⟨?_, hclosed⟩
  rw [hlexemes]
  simp [Lexer.lexemes, Pending.lexemes]

/-- `++` and `--` read as one sign, whatever comes before and after. -/
theorem feed_double {l : Lexer} {c : Char} (hc : (c, c) ∈ Lexer.doubleSigns) (hl : l.Splits c) :
    l.feed (String.ofList [c, c]).toList =
      ⟨l.lexemes ++ [Lexeme.sign (String.ofList [c, c])], .nothing⟩ := by
  have hchars : ∀ p ∈ Lexer.doubleSigns, p.1 ∈ Lexer.signChars := by decide
  rw [String.toList_ofList, Lexer.feed_cons, Lexer.feedChar_sign (hchars _ hc) hl, Lexer.feed_cons,
    Lexer.feedChar_double hc]
  rfl

theorem beforeDouble (h : Reads as ls) {c : Char} (hc : (c, c) ∈ Lexer.doubleSigns)
    (level : Level) :
    Reads (Atoms.operator level (String.ofList [c, c]) ++ as)
      ([Lexeme.sign (String.ofList [c, c])] ++ ls) := by
  intro l hadmits
  have hsign : scan l (Atoms.operator level (String.ofList [c, c])) = _ :=
    feed_double hc (hadmits.splits c (by simp [leadingChar?]))
  obtain ⟨hlexemes, hclosed⟩ :=
    h _ (Lexer.admits_of_nothing (l.lexemes ++ [Lexeme.sign (String.ofList [c, c])]) ls)
  rw [scan_append, hsign]
  refine ⟨?_, hclosed⟩
  rw [hlexemes]
  simp [Lexer.lexemes, Pending.lexemes]

theorem afterDouble (h : Reads as ls) (hne : ls ≠ []) {c : Char}
    (hc : (c, c) ∈ Lexer.doubleSigns) :
    Reads (as ++ Atoms.text (String.ofList [c, c])) (ls ++ [Lexeme.sign (String.ofList [c, c])]) := by
  intro l hadmits
  obtain ⟨hlexemes, hclosed⟩ := h l (hadmits.of_append hne)
  rw [scan_append, scan_text, feed_double hc (hclosed.splits c), hlexemes]
  exact ⟨by simp [Lexer.lexemes, Pending.lexemes], Lexer.isClosed_of_nothing _⟩

end Reads

/-! ### How lexemes of trees begin -/

namespace OpTree

variable {t : OpTree}

theorem IsReadable.lexemes_ne_nil (h : t.IsReadable) : t.lexemes ≠ [] := by
  have hoperation (op : BinaryOp) (l r : Written) : Written.operation op l r ≠ [] := by
    unfold Written.operation
    dsimp only
    split
    · simp
    · split <;> simp
  cases t with
  | name s => simp [lexemes]
  | number n isLong => simp [lexemes]
  | unary op t =>
    have hop := h.1
    cases op with
    | negate | negateChecked | unaryPlus | not | onesComplement | preIncrementAssign
    | preDecrementAssign | postIncrementAssign | postDecrementAssign =>
      simp [lexemes, Written.unary, Written.signed, Written.checked]
    | _ => cases hop
  | binary op l r =>
    unfold lexemes Written.binary
    split
    · simp
    · split
      · simp
      · split
        · simp [Written.checked]
        · exact hoperation op _ _
  | conditional c a b => simp [lexemes, Written.conditional]

theorem IsReadable.operand_ne_nil (h : t.IsReadable) (level : Level) :
    Written.operand (t, t.lexemes) level ≠ [] := by
  unfold Written.operand enclosed
  split
  · simp
  · exact h.lexemes_ne_nil

theorem IsReadable.logicalOperand_ne_nil (h : t.IsReadable) (op : BinaryOp) :
    Written.logicalOperand op (t, t.lexemes) ≠ [] := by
  unfold Written.logicalOperand
  dsimp only
  split
  next inner a b =>
    split
    · exact h.lexemes_ne_nil
    · split
      · simp [enclosed]
      · exact h.operand_ne_nil _
  · exact h.operand_ne_nil _

/-- What binds tightest starts with no sign, or with a parenthesis. -/
theorem leadingChar?_of_primary (h : t.IsReadable) (hlevel : Level.primary ≤ t.level) {c : Char}
    (hc : c ∈ leadingChar? t.lexemes) : c = '(' := by
  -- an operand of a postfix sign or an index is such a tree itself, or in parentheses
  have hoperand {u : OpTree} (hu : u.IsReadable) (ls : List Lexeme)
      (ih : Level.primary ≤ u.level → c ∈ leadingChar? u.lexemes → c = '(')
      (hc : c ∈ leadingChar? (Written.operand (u, u.lexemes) Level.primary ++ ls)) : c = '(' := by
    rw [leadingChar?_append (hu.operand_ne_nil _)] at hc
    unfold Written.operand enclosed at hc
    by_cases hlt : u.level < Level.primary
    · simpa [hlt, leadingChar?] using hc.symm
    · exact ih (Nat.le_of_not_lt hlt) (by simpa [hlt] using hc)
  induction t with
  | name s => cases hc
  | number n isLong => cases hc
  | unary op t ih =>
    cases op with
    | postIncrementAssign | postDecrementAssign => exact hoperand h.2 _ (ih h.2) hc
    | _ => exact absurd (show Level.primary ≤ Level.unary from hlevel) (by decide)
  | binary op l r ihl _ =>
    have hcases : ∀ op : BinaryOp, op.isAssignment = false →
        Level.primary ≤ (if op.isChecked then Level.primary else op.level) →
        op = .power ∨ op = .arrayIndex ∨ op.isChecked = true := by
      intro op
      cases op <;> decide
    rcases hcases op h.1 hlevel with rfl | rfl | hchecked
    · cases hc
    · refine hoperand h.2.1 ([Lexeme.sign "["] ++ r.lexemes ++ [Lexeme.sign "]"]) (ihl h.2.1) ?_
      simpa [lexemes, Written.binary] using hc
    · have hlexemes : ∃ ls, (OpTree.binary op l r).lexemes = .word "checked" :: ls := by
        cases op <;> first | exact ⟨_, rfl⟩ | cases hchecked
      obtain ⟨ls, hlexemes⟩ := hlexemes
      rw [hlexemes] at hc
      cases hc
  | conditional c a b _ _ _ =>
    exact absurd (show Level.primary ≤ Level.conditional from hlevel) (by decide)

/-- What may follow a prefix sign starts with `+` or `-` only where it is known to. -/
theorem leadingChar?_of_unary (h : t.IsReadable) (hlevel : Level.unary ≤ t.level) {c : Char}
    (hc : c ∈ leadingChar? t.lexemes) :
    c ∈ ['(', '!', '~'] ∨ c = '-' ∧ t.startsWithSign true = true ∨
      c = '+' ∧ t.startsWithSign false = true := by
  have hprimary (htight : Level.primary ≤ t.level) : c ∈ ['(', '!', '~'] := by
    rw [leadingChar?_of_primary h htight hc]
    decide
  cases t with
  | name s => cases hc
  | number n isLong => cases hc
  | unary op t =>
    have hop := h.1
    cases op with
    | negate | preDecrementAssign =>
      obtain rfl : '-' = c := by simpa [lexemes, Written.unary, Written.signed, leadingChar?] using hc
      exact .inr (.inl ⟨rfl, rfl⟩)
    | unaryPlus | preIncrementAssign =>
      obtain rfl : '+' = c := by simpa [lexemes, Written.unary, Written.signed, leadingChar?] using hc
      exact .inr (.inr ⟨rfl, rfl⟩)
    | not =>
      obtain rfl : '!' = c := by simpa [lexemes, Written.unary, leadingChar?] using hc
      exact .inl (by decide)
    | onesComplement =>
      obtain rfl : '~' = c := by simpa [lexemes, Written.unary, leadingChar?] using hc
      exact .inl (by decide)
    | negateChecked => cases hc
    | postIncrementAssign | postDecrementAssign => exact .inl (hprimary (Nat.le_refl _))
    | _ => cases hop
  | binary op l r =>
    have htight : ∀ op : BinaryOp, Level.unary ≤ (if op.isChecked then Level.primary else op.level) →
        Level.primary ≤ (if op.isChecked then Level.primary else op.level) := by
      intro op
      cases op <;> decide
    exact .inl (hprimary (htight op hlevel))
  | conditional c a b =>
    exact absurd (show Level.unary ≤ Level.conditional from hlevel) (by decide)

end OpTree

end Read

/-! ### Rendering -/

namespace Render

/-- The child shows the tree, and its value is read as the tree. -/
structure ReadsAs (c : Child) (t : OpTree) : Prop where
  has : HasOperators c.1 t
  reads : Gives (value c) fun d => Reads d.atoms t.lexemes

namespace ReadsAs

variable {c l r : Child} {t lt rt : OpTree}

theorem lexemes_ne_nil (h : ReadsAs c t) : t.lexemes ≠ [] := h.has.isReadable.lexemes_ne_nil

theorem operand (h : ReadsAs c t) (level : Level) :
    Gives (operand c level) fun d => Reads d.atoms (Written.operand (t, t.lexemes) level) := by
  refine h.reads.bind fun d hd => .pure ?_
  unfold Written.operand
  rw [h.has.level_eq]
  by_cases hlevel : t.level < level
  · simpa [hlevel, Doc.parenthesized] using hd.parens
  · simpa [hlevel, enclosed] using hd

theorem logicalOperand (h : ReadsAs c t) (op : BinaryOp) :
    Gives (logicalOperand op c) fun d =>
      Reads d.atoms (Written.logicalOperand op (t, t.lexemes)) := by
  obtain ⟨e, renderer⟩ := c
  have hoperand := h.operand (op.level + 1)
  obtain ⟨hhas, hreads⟩ := h
  cases hhas with
  | @binary _ inner _ _ _ _ _ _ _ _ =>
    unfold Render.logicalOperand Written.logicalOperand
    dsimp only [Node.form]
    split
    · exact hreads
    · split
      · exact hreads.bind fun d hd => .pure hd.parens
      · exact hoperand
  | _ => exact hoperand

/-- The operands of an operation, with the sign that comes between them. -/
theorem operands (hl : ReadsAs l lt) (hr : ReadsAs r rt) (op : BinaryOp) :
    Gives (operands op l r) fun ds => ∃ ls rs, Reads ds.1.atoms ls ∧ Reads ds.2.atoms rs ∧ ls ≠ [] ∧
      Written.operation op (lt, lt.lexemes) (rt, rt.lexemes) = ls ++ [Lexeme.sign op.symbol] ++ rs := by
  have hleft := hl.has.isReadable
  unfold Render.operands Written.operation
  dsimp only
  split
  · refine (hl.logicalOperand op).bind fun d hd => (hr.logicalOperand op).bind fun d' hd' => ?_
    exact .pure ⟨_, _, hd, hd', hleft.logicalOperand_ne_nil op, rfl⟩
  · split
    · refine (hl.operand _).bind fun d hd => (hr.operand _).bind fun d' hd' => ?_
      exact .pure ⟨_, _, hd, hd', hleft.operand_ne_nil _, rfl⟩
    · refine (hl.operand _).bind fun d hd => (hr.operand _).bind fun d' hd' => ?_
      exact .pure ⟨_, _, hd, hd', hleft.operand_ne_nil _, rfl⟩

theorem operation (hl : ReadsAs l lt) (hr : ReadsAs r rt) {op : BinaryOp} (ty : TypeRef)
    (hop : Lexer.isSign op.symbol = true) :
    Gives (operation op l r ty) fun d =>
      Reads d.atoms (Written.operation op (lt, lt.lexemes) (rt, rt.lexemes)) := by
  refine (hl.operands hr op).bind fun ds ⟨ls, rs, hls, hrs, hne, heq⟩ => .pure ?_
  rw [heq]
  exact hls.operation hrs hne hop _

theorem values (hl : ReadsAs l lt) (hr : ReadsAs r rt) :
    Gives (values [l, r]) fun ds => ∃ d d', ds = [d, d'] ∧ Reads d.atoms lt.lexemes ∧
      Reads d'.atoms rt.lexemes := by
  unfold Render.values
  rw [List.mapM_cons, List.mapM_cons, List.mapM_nil]
  refine hl.reads.bind fun d hd => ?_
  refine Gives.bind (P := fun ds => ∃ d', ds = [d'] ∧ Reads d'.atoms rt.lexemes) ?_ fun ds hds => ?_
  · exact hr.reads.bind fun d' hd' => .pure ⟨d', rfl, hd'⟩
  · obtain ⟨d', rfl, hd'⟩ := hds
    exact .pure ⟨d, d', rfl, hd, hd'⟩

theorem binary (env : Env) (hsettings : env.settings.typeNames = ({} : Settings).typeNames)
    (hl : ReadsAs l lt) (hr : ReadsAs r rt) {op : BinaryOp} (hop : op.isAssignment = false)
    (ty : TypeRef) :
    Gives (binary env op l r ty none) fun d => Reads d.atoms (OpTree.binary op lt rt).lexemes := by
  have hsigns : ∀ op : BinaryOp, op.isAssignment = false → op ≠ .power → op ≠ .arrayIndex →
      Lexer.isSign op.symbol = true := by
    intro op
    cases op <;> decide
  unfold OpTree.lexemes Written.binary Render.binary
  dsimp only [Option.filter]
  split
  · have hmath : Atoms.typeName ({} : Settings).typeNames .math =
        Atoms.note (.typeName .math) ++ Atoms.token .typeName "Math" := by
      decide +kernel
    refine (hl.values hr).bind fun ds hvalues => .pure ?_
    obtain ⟨d, d', hds, hd, hd'⟩ := hvalues
    show Reads (env.typeName .math ++ _ ++ _ ++ Atoms.parens (separated ", " ds)) _
    rw [hds, Env.typeName, hsettings, hmath]
    exact (hd.power hd' hl.lexemes_ne_nil _).note _
  next hpower =>
    split
    · refine (hl.operand _).bind fun d hd => hr.reads.bind fun d' hd' => .pure ?_
      exact hd.index hd' (hl.has.isReadable.operand_ne_nil _)
    next hindex =>
      have hsign := hsigns op hop (by simpa using hpower) (by simpa using hindex)
      split
      · exact (hl.operation hr ty hsign).bind fun d hd => .pure hd.checked
      · exact hl.operation hr ty hsign

/-- A sign of one character and its operand, which is in parentheses if it starts with the same
sign. -/
theorem before {as : Atoms} {isEnclosed : Bool} (h : t.IsReadable) {s : Char}
    (has : Reads as (enclosed isEnclosed t.lexemes)) (hs : s ∈ ['-', '+', '!', '~'])
    (hlevel : isEnclosed = false → Level.unary ≤ t.level)
    (hsign : isEnclosed = false → ∀ isMinus, s = (if isMinus then '-' else '+') →
      t.startsWithSign isMinus = false)
    (level : Level) :
    Reads (Atoms.operator level (String.ofList [s]) ++ as)
      ([Lexeme.sign (String.ofList [s])] ++ enclosed isEnclosed t.lexemes) := by
  have hchar : ∀ s ∈ ['-', '+', '!', '~'], s ∈ Lexer.signChars ∧
      (∀ d ∈ ['(', '!', '~'], (s, d) ∉ Lexer.doubleSigns) ∧
      (s ≠ '-' → (s, '-') ∉ Lexer.doubleSigns) ∧ (s ≠ '+' → (s, '+') ∉ Lexer.doubleSigns) := by
    decide
  obtain ⟨hchar, hother, hminus, hplus⟩ := hchar s hs
  refine has.before hchar (fun d hd => ?_) level
  cases isEnclosed with
  | true =>
    obtain rfl : '(' = d := by simpa [enclosed, leadingChar?] using hd
    exact hother '(' (by decide)
  | false =>
    rcases OpTree.leadingChar?_of_unary h (hlevel rfl) hd with hd | ⟨rfl, hstarts⟩ | ⟨rfl, hstarts⟩
    · exact hother d hd
    · refine hminus fun heq => ?_
      rw [hsign rfl true heq] at hstarts
      cases hstarts
    · refine hplus fun heq => ?_
      rw [hsign rfl false heq] at hstarts
      cases hstarts

theorem signed (h : ReadsAs c t) (isMinus : Bool) :
    Gives (signed isMinus c) fun as => Reads as (Written.signed isMinus (t, t.lexemes)) := by
  have hsign : (if isMinus then "-" else "+") = String.ofList [if isMinus then '-' else '+'] := by
    cases isMinus <;> rfl
  have hmem : (if isMinus then '-' else '+') ∈ ['-', '+', '!', '~'] := by
    cases isMinus <;> decide
  have hsame (isMinus' : Bool) (heq : (if isMinus then '-' else '+') = (if isMinus' then '-' else '+')) :
      isMinus = isMinus' := by
    revert heq
    cases isMinus <;> cases isMinus' <;> decide
  unfold Render.signed Written.signed
  rw [h.has.startsWithSign_eq, hsign]
  dsimp only
  cases hstarts : t.startsWithSign isMinus with
  | true =>
    refine h.reads.bind fun d hd => .pure ?_
    exact before h.has.isReadable hd.parens hmem nofun nofun _
  | false =>
    refine (h.operand Level.unary).bind fun d hd => .pure ?_
    refine before h.has.isReadable hd hmem (fun hlevel => ?_) (fun _ isMinus' heq => ?_) _
    · exact Nat.le_of_not_lt (of_decide_eq_false hlevel)
    · rw [← hsame isMinus' heq, hstarts]

theorem unary (env : Env) (h : ReadsAs c t) {op : UnaryOp} (hop : OpTree.readsUnary op = true)
    (ty : TypeRef) :
    Gives (unary env op (some c) ty none) fun d =>
      Reads d.atoms (OpTree.unary (shownUnary ty op) t).lexemes := by
  have hoperand := h.operand Level.unary
  have hprimary := h.operand Level.primary
  have hne := h.has.isReadable.operand_ne_nil Level.primary
  have hbefore {as : Atoms} (s : Char) (hs : s ∈ ['!', '~'])
      (has : Reads as (Written.operand (t, t.lexemes) Level.unary)) (level : Level) :
      Reads (Atoms.operator level (String.ofList [s]) ++ as)
        ([Lexeme.sign (String.ofList [s])] ++ Written.operand (t, t.lexemes) Level.unary) := by
    refine before h.has.isReadable has (List.mem_cons_of_mem _ (List.mem_cons_of_mem _ hs))
      (fun hlevel => Nat.le_of_not_lt (of_decide_eq_false hlevel)) (fun _ isMinus heq => ?_) _
    subst heq
    exact absurd hs (by cases isMinus <;> decide)
  cases op with
  | negate => exact (h.signed true).bind fun as has => .pure has
  | unaryPlus => exact (h.signed false).bind fun as has => .pure has
  | negateChecked => exact (h.signed true).bind fun as has => .pure has.checked
  | not =>
    refine hoperand.bind fun d hd => .pure ?_
    unfold shownUnary
    cases ty.isBool with
    | true => exact hbefore '!' (by decide) hd _
    | false => exact hbefore '~' (by decide) hd _
  | onesComplement => exact hoperand.bind fun d hd => .pure (hbefore '~' (by decide) hd _)
  | preIncrementAssign =>
    exact hoperand.bind fun d hd => .pure (hd.beforeDouble (c := '+') (by decide) _)
  | preDecrementAssign =>
    exact hoperand.bind fun d hd => .pure (hd.beforeDouble (c := '-') (by decide) _)
  | postIncrementAssign =>
    exact hprimary.bind fun d hd => .pure (hd.afterDouble hne (c := '+') (by decide))
  | postDecrementAssign =>
    exact hprimary.bind fun d hd => .pure (hd.afterDouble hne (c := '-') (by decide))
  | _ => cases hop

theorem ternary {a b : Child} {ct yt nt : OpTree} (hc : ReadsAs c ct) (ha : ReadsAs a yt)
    (hb : ReadsAs b nt) (ty : TypeRef) :
    Gives (ternary c a b ty) fun d => Reads d.atoms (OpTree.conditional ct yt nt).lexemes := by
  refine (hc.operand _).bind fun d hd => ?_
  refine (ha.operand _).bind fun d' hd' => ?_
  refine (hb.operand _).bind fun d'' hd'' => .pure ?_
  exact hd.conditional hd' hd'' (hc.has.isReadable.operand_ne_nil _) _

end ReadsAs

end Render

namespace HasOperators

variable {e : Expr} {t : OpTree}

/-- **What is made of operators is read as the operators.** -/
theorem reads_value (h : HasOperators e t) {env : Env} (hcustom : env.settings.custom = [])
    (hnames : env.settings.typeNames = ({} : Settings).typeNames) :
    Gives (env.value e) fun d => Reads d.atoms t.lexemes := by
  -- without custom renderers, the value of a node is its built-in rendering
  have hvalue {node : Nat} {form : Form Expr} {ls : List Lexeme}
      (hbuiltIn : Gives (builtIn env node (form.map fun c => (c, env.renderer c)))
        fun d => Reads d.atoms ls) :
      Gives (env.value (.mk node form)) fun d => Reads d.atoms ls := by
    unfold Env.value
    rw [Env.renderer_mk]
    have hown : Gives (asValue env node (form.map fun c => (c, env.renderer c)))
        fun d => Reads d.atoms ls := by
      unfold asValue
      rw [Env.custom?_eq_none hcustom]
      exact hbuiltIn
    refine hown.map fun d hd => ?_
    unfold notedValue
    split
    · exact hd
    · exact hd.noted node
  have hchild {e : Expr} {t : OpTree} (he : HasOperators e t)
      (ih : Gives (env.value e) fun d => Reads d.atoms t.lexemes) :
      ReadsAs (e, env.renderer e) t :=
    ⟨he, ih⟩
  induction h with
  | @name _ v hv => exact hvalue (.pure (Reads.name _ v.ty hv))
  | number n ty => exact hvalue (.pure (Reads.number n ty))
  | unary ty hop he ih => exact hvalue ((hchild he ih).unary env hop ty)
  | @binary _ op l r _ _ ty hop hl hr ihl ihr =>
    refine hvalue ?_
    show Gives (if op.isAssignment then _ else _) _
    rw [hop]
    exact (hchild hl ihl).binary env hnames (hchild hr ihr) hop ty
  | @conditional _ c a b _ _ _ ty hty hc ha hb ihc iha ihb =>
    have hternary : Node.isTernary a b ty = true := by
      simp [Node.isTernary, hty, ha.rendersAsStatements_eq, hb.rendersAsStatements_eq]
    refine hvalue ?_
    show Gives (if Node.isTernary a b ty then _ else _) _
    rw [hternary]
    exact (hchild hc ihc).ternary (hchild ha iha) (hchild hb ihb) ty

/-- **The text of an expression is read as its operators, up to how `&&` and `||` are nested.** -/
theorem read_text (h : HasOperators e t) :
    ∃ u, read (lex (Rendered.ofExpr {} e).text) = some u ∧ Reassociates t u := by
  refine ⟨t.leftNested, ?_, t.reassociates_leftNested⟩
  let env := Env.ofExpr {} e
  have hvalue : Gives (env.value e) fun d => Reads d.atoms t.lexemes := h.reads_value rfl rfl
  have hreads : Reads ((env.root e).run []).1.atoms t.lexemes := by
    unfold Env.root
    rw [h.rendersAsStatements_eq]
    exact hvalue []
  have hplain : Read.IsPlain { format := .plain, indent := "    " } := ⟨rfl, by decide, .inl rfl⟩
  obtain ⟨-, hscanned⟩ := scan_write hplain ((env.root e).run []).1.atoms
  have hlex : lex (Rendered.ofExpr {} e).text = t.lexemes := by
    show (scanned (((env.root e).run []).1.atoms.write _)).lexemes = _
    rw [hscanned]
    exact (hreads {} (Lexer.admits_of_nothing [] _)).1
  rw [hlex]
  exact read_lexemes h.isReadable

/-- `a && b && (-(-x) == 1)`, nested to the right. -/
def nestedSigns : Expr :=
  let name (node : Nat) (s : String) : Expr := .mk node (.parameter { name := s, ty := .int })
  let minus (node : Nat) (e : Expr) : Expr := .mk node (.unary .negate (some e) .int none)
  let test : Expr := .mk 5 (.binary .equal (minus 4 (minus 3 (name 2 "x")))
    (.mk 6 (.constant ⟨.int 1, .int⟩)) .bool none)
  .mk 8 (.binary .andAlso (name 0 "a") (.mk 7 (.binary .andAlso (name 1 "b") test .bool none)) .bool
    none)

theorem read_text_nestedSigns :
    ∃ u, read (lex (Rendered.ofExpr {} nestedSigns).text) = some u ∧
      Reassociates (.binary .andAlso (.name "a") (.binary .andAlso (.name "b")
        (.binary .equal (.unary .negate (.unary .negate (.name "x")))
          (.number 1 (TypeRef.int = .long))))) u :=
  have hname (node : Nat) (c : Char) (hc : isNameChar c = true) (hdigit : c.isDigit = false) :
      HasOperators (.mk node (.parameter { name := String.ofList [c], ty := .int }))
        (.name (String.ofList [c])) :=
    .name ⟨c, [], String.toList_ofList, hdigit, by simpa using hc⟩
  read_text (.binary .bool rfl (hname 0 'a' rfl rfl) (.binary .bool rfl (hname 1 'b' rfl rfl)
    (.binary .bool rfl (.unary .int rfl (.unary .int rfl (hname 2 'x' rfl rfl)))
      (.number 1 .int))))

end HasOperators

end TreeScribe
