import Mathlib.Data.List.Basic
import TreeScribe.Proofs.Read.Operators.Reader

/-! Lexemes that are read as a tree.

What is written of a tree is read back in front of anything that binds more loosely (`Feeds`), as long as
no `&&` is the right operand of another one, and no `||` of another one. -/
namespace TreeScribe.Read

namespace Frame

theorem isTakenBy_of_lt {f : Frame} {level l : Level} (hf : f.level? = some l) (h : level < l) :
    f.isTakenBy level = true := by
  simp [isTakenBy, hf, h]

/-- What holds against an operator holds against one that binds tighter. -/
theorem isTakenBy_eq_false_of_le {f : Frame} {level level' : Level}
    (h : f.isTakenBy level = false) (hle : level ≤ level') : f.isTakenBy level' = false := by
  unfold isTakenBy at h ⊢
  cases hf : f.level? with
  | none => rfl
  | some l =>
    rw [hf] at h
    rcases Nat.lt_or_eq_of_le hle with hlt | rfl
    · have hl : l ≤ level := by simp_all
      have hlt : l < level' := Nat.lt_of_le_of_lt hl hlt
      simp [Nat.not_lt_of_lt hlt, Nat.ne_of_gt hlt]
    · exact h

end Frame

/-- The stack is not reduced by operators that bind at least at this level. -/
def Holds (fs : List Frame) (level : Level) : Prop :=
  ∀ f ∈ fs.head?, f.isTakenBy level = false

/-- The frames wait for their last operands, and bind at least at this level. -/
def Bind (gs : List Frame) (level : Level) : Prop :=
  ∀ g ∈ gs, ∃ l, g.level? = some l ∧ level ≤ l ∧ l < Level.primary

/-- Fills all frames, the first one first. -/
def fillAll (gs : List Frame) (u : OpTree) : OpTree := gs.foldl (fun t g => g.fill t) u

theorem reduce_append {isTaken : Frame → Bool} {gs fs : List Frame}
    (hgs : ∀ g ∈ gs, isTaken g = true) (hfs : ∀ f ∈ fs.head?, isTaken f = false) (u : OpTree) :
    reduce isTaken u (gs ++ fs) = (fillAll gs u, fs) := by
  induction gs generalizing u with
  | nil =>
    cases fs with
    | nil => rfl
    | cons f fs => simp [reduce, fillAll, hfs f rfl]
  | cons g gs ih =>
    rw [List.cons_append, reduce, if_pos (hgs g (List.mem_cons_self ..)),
      ih fun g' hg' => hgs g' (List.mem_cons_of_mem _ hg')]
    rfl

/-- The lexemes are read as the tree, in front of anything that binds more loosely than
`level`. The operators that are still open when they end bind at least at `level`. -/
def Feeds (ls : List Lexeme) (t : OpTree) (level : Level) : Prop :=
  ∀ fs, Holds fs level → ∃ u gs,
    Reader.run (.wants fs) ls = some (.has u (gs ++ fs)) ∧ fillAll gs u = t ∧ Bind gs level

namespace Reader

variable {r r' r'' : Reader} {ls ms : List Lexeme}

theorem run_append (h : r.run ls = some r') (h' : r'.run ms = some r'') :
    r.run (ls ++ ms) = some r'' := by
  show List.foldlM step r (ls ++ ms) = _
  rw [List.foldlM_append]
  show (r.run ls).bind (·.run ms) = _
  rw [h]
  exact h'

theorem run_step {x : Lexeme} (h : r.run ls = some r') (h' : r'.step x = some r'') :
    r.run (ls ++ [x]) = some r'' := by
  refine run_append h ?_
  show (r'.step x).bind (·.run []) = _
  rw [h']
  rfl

end Reader

theorem Holds.mono {fs : List Frame} {level level' : Level} (h : Holds fs level)
    (hle : level ≤ level') : Holds fs level' :=
  fun f hf => Frame.isTakenBy_eq_false_of_le (h f hf) hle

theorem Bind.mono {gs : List Frame} {level level' : Level} (h : Bind gs level)
    (hle : level' ≤ level) : Bind gs level' := by
  intro g hg
  obtain ⟨l, hl, hlevel, hprimary⟩ := h g hg
  exact ⟨l, hl, Nat.le_trans hle hlevel, hprimary⟩

theorem Bind.append {gs : List Frame} {level l : Level} (h : Bind gs level) {f : Frame}
    (hf : f.level? = some l) (hle : level ≤ l) (hprimary : l < Level.primary) :
    Bind (gs ++ [f]) level := by
  intro g hg
  rcases List.mem_append.mp hg with hg | hg
  · exact h g hg
  · rw [List.mem_singleton.mp hg]
    exact ⟨l, hf, hle, hprimary⟩

/-- No operator binds as tightly as an operand. -/
theorem Bind.eq_nil {gs : List Frame} (h : Bind gs Level.primary) : gs = [] := by
  cases gs with
  | nil => rfl
  | cons g gs =>
    obtain ⟨l, -, hle, hlt⟩ := h g (List.mem_cons_self ..)
    exact absurd hle (Nat.not_le_of_lt hlt)

namespace Feeds

variable {ls : List Lexeme} {t : OpTree} {level level' : Level}

theorem mono (h : Feeds ls t level) (hle : level' ≤ level) : Feeds ls t level' := by
  intro fs hfs
  obtain ⟨u, gs, hrun, hfill, hbind⟩ := h fs (hfs.mono hle)
  exact ⟨u, gs, hrun, hfill, hbind.mono hle⟩

/-- A sign that closes a bracket finds all that was read in it. -/
theorem closing (h : Feeds ls t level) {f : Frame} (hf : f.level? = none) (fs : List Frame) :
    ∃ r, Reader.run (.wants (f :: fs)) ls = some r ∧
      ∀ s ∈ [":", ")", "]", ","], r.step (.sign s) = Reader.close s (t, f :: fs) := by
  have hhead : ∀ f' ∈ (f :: fs).head?, f'.level? = none := by
    intro f' hf'
    obtain rfl : f = f' := by simpa using hf'
    exact hf
  have hholds : Holds (f :: fs) level := fun f' hf' => by simp [Frame.isTakenBy, hhead f' hf']
  obtain ⟨u, gs, hrun, hfill, hbind⟩ := h (f :: fs) hholds
  have hreduce : reduceAll u (gs ++ f :: fs) = (t, f :: fs) := by
    rw [reduceAll, reduce_append, hfill]
    · intro g hg
      obtain ⟨l, hl, -⟩ := hbind g hg
      simp [hl]
    · intro f' hf'
      simp [hhead f' hf']
  refine ⟨_, hrun, fun s hs => ?_⟩
  rw [← hreduce]
  simp only [List.mem_cons, List.not_mem_nil, or_false] at hs
  rcases hs with rfl | rfl | rfl | rfl <;> rfl

theorem enclosed (h : Feeds ls t level) : Feeds (enclosed true ls) t level' := by
  intro fs _
  obtain ⟨r, hrun, hclose⟩ := h.closing (f := .parens) rfl fs
  have hopen : Reader.run (.wants fs) [.sign "("] = some (.wants (.parens :: fs)) := rfl
  refine ⟨t, [], ?_, rfl, fun g hg => nomatch hg⟩
  exact Reader.run_step (Reader.run_append hopen hrun) (hclose ")" (by decide))

theorem operand (h : Feeds ls t t.level) (level : Level) :
    Feeds (Written.operand (t, ls) level) t level := by
  unfold Written.operand
  by_cases hlevel : t.level < level
  · simpa [hlevel] using h.enclosed
  · simpa [hlevel, Read.enclosed] using h.mono (Nat.le_of_not_lt hlevel)

/-- `l op r`, where the operator takes what is open at the end of `l`, and nothing that is open
at the end of `r` takes it. -/
theorem operation {l r : OpTree} {ls rs : List Lexeme} {left right : Level} (hl : Feeds ls l left)
    (hr : Feeds rs r right) {op : BinaryOp} (hop : binaryOf? op.symbol = some op)
    (hleft : op.level + 1 ≤ left ∨ op.level ≤ left ∧ Frame.nestsRight op.level = false)
    (hright : op.level + 1 ≤ right ∨ op.level ≤ right ∧ Frame.nestsRight op.level = true) :
    Feeds (ls ++ [Lexeme.sign op.symbol] ++ rs) (.binary op l r) op.level := by
  have hprimary : op.level < Level.primary := by
    revert hop
    cases op <;> decide
  have hafter (t : OpTree) (fs : List Frame) : Reader.afterOperand t fs op.symbol =
      some (.wants (.left op (reduce (Frame.isTakenBy op.level) t fs).1 ::
        (reduce (Frame.isTakenBy op.level) t fs).2)) := by
    revert hop
    cases op <;> intro hop <;> first | rfl | cases hop
  intro fs hfs
  have hle : op.level ≤ left := hleft.elim Nat.le_of_succ_le (·.1)
  obtain ⟨u, gs, hrun, hfill, hbind⟩ := hl fs (hfs.mono hle)
  have htaken : ∀ g ∈ gs, g.isTakenBy op.level = true := by
    intro g hg
    obtain ⟨k, hk, hkle, -⟩ := hbind g hg
    rcases hleft with hlt | ⟨-, hnests⟩
    · exact Frame.isTakenBy_of_lt hk (Nat.lt_of_lt_of_le hlt hkle)
    · rcases Nat.lt_or_eq_of_le (Nat.le_trans hle hkle) with hlt | heq
      · exact Frame.isTakenBy_of_lt hk hlt
      · simp [Frame.isTakenBy, hk, heq ▸ hnests, heq]
  have hheld : Holds (.left op l :: fs) right := by
    intro f hf
    obtain rfl : Frame.left op l = f := by simpa using hf
    rcases hright with hlt | ⟨hle, hnests⟩
    · have hnot : ¬right < op.level := Nat.not_lt_of_lt hlt
      simp [Frame.isTakenBy, Frame.level?, hnot, Nat.ne_of_gt hlt]
    · refine Frame.isTakenBy_eq_false_of_le ?_ hle
      simp [Frame.isTakenBy, Frame.level?, hnests]
  obtain ⟨v, gs', hrun', hfill', hbind'⟩ := hr _ hheld
  refine ⟨v, gs' ++ [Frame.left op l], ?_, ?_, ?_⟩
  · have hstep : Reader.step (.has u (gs ++ fs)) (.sign op.symbol) =
        some (.wants (.left op l :: fs)) := by
      show Reader.afterOperand u (gs ++ fs) op.symbol = _
      rw [hafter, reduce_append htaken hfs, hfill]
    rw [List.append_assoc gs']
    exact Reader.run_append (Reader.run_step hrun hstep) hrun'
  · rw [fillAll, List.foldl_append]
    show Frame.fill (fillAll gs' v) (.left op l) = _
    rw [hfill']
    rfl
  · have hle : op.level ≤ right := hright.elim Nat.le_of_succ_le (·.1)
    exact (hbind'.mono hle).append rfl (Nat.le_refl _) hprimary

theorem logicalOperand (h : Feeds ls t t.level) {op : BinaryOp} (hop : op.isLogical = true) :
    Feeds (Written.logicalOperand op (t, ls)) t op.level := by
  have hoperand : Feeds (Written.operand (t, ls) (op.level + 1)) t op.level :=
    (h.operand _).mono (Nat.le_succ _)
  unfold Written.logicalOperand
  dsimp only
  split
  next inner l r =>
    split
    next heq =>
      rw [beq_iff_eq] at heq
      subst heq
      have hlevel : (OpTree.binary inner l r).level = inner.level := by
        cases inner <;> first | rfl | cases hop
      exact hlevel ▸ h
    · split
      · exact h.enclosed
      · exact hoperand
  · exact hoperand

/-- An operand of another kind is read as a whole. -/
theorem logicalOperand_of_ne (h : Feeds ls t t.level) {op : BinaryOp}
    (hne : ∀ a b, t ≠ .binary op a b) :
    Feeds (Written.logicalOperand op (t, ls)) t (op.level + 1) := by
  unfold Written.logicalOperand
  dsimp only
  split
  next inner l r =>
    split
    next heq =>
      rw [beq_iff_eq] at heq
      exact absurd (heq ▸ rfl) (hne l r)
    · split
      · exact h.enclosed
      · exact h.operand _
  · exact h.operand _

section Brackets

variable {l r : OpTree} {ls rs : List Lexeme} {left right : Level}

theorem index (hl : Feeds ls l Level.primary) (hr : Feeds rs r right) :
    Feeds (ls ++ [Lexeme.sign "["] ++ rs ++ [Lexeme.sign "]"]) (.binary .arrayIndex l r) Level.primary := by
  intro fs hfs
  obtain ⟨u, gs, hrun, hfill, hbind⟩ := hl fs hfs
  obtain rfl := hbind.eq_nil
  obtain rfl : u = l := hfill
  obtain ⟨v, hrun', hclose⟩ := hr.closing (f := .index u) rfl fs
  refine ⟨_, [], ?_, rfl, hbind⟩
  exact Reader.run_step (Reader.run_append (Reader.run_step hrun rfl) hrun')
    (hclose "]" (by decide))

theorem power (hl : Feeds ls l left) (hr : Feeds rs r right) :
    Feeds ([Lexeme.name "Math", .sign ".", .name "Pow", .sign "("] ++ ls ++ [Lexeme.sign ","] ++ rs ++
      [Lexeme.sign ")"]) (.binary .power l r) level := by
  intro fs _
  obtain ⟨u, hrun, hclose⟩ := hl.closing (f := .base) rfl fs
  obtain ⟨v, hrun', hend⟩ := hr.closing (f := .exponent l) rfl fs
  have hopen : Reader.run (.wants fs) [.name "Math", .sign ".", .name "Pow", .sign "("] =
      some (.wants (.base :: fs)) :=
    rfl
  have hbase := Reader.run_step (Reader.run_append hopen hrun) (hclose "," (by decide))
  refine ⟨_, [], ?_, rfl, fun g hg => nomatch hg⟩
  exact Reader.run_step (Reader.run_append hbase hrun') (hend ")" (by decide))

theorem checked {t' : OpTree} (h : Feeds ls t level) (hchecked : t.checked? = some t') :
    Feeds (Written.checked ls) t' level' := by
  intro fs _
  obtain ⟨u, hrun, hclose⟩ := h.closing (f := .checked) rfl fs
  have hopen : Reader.run (.wants fs) [.word "checked", .sign "("] =
      some (.wants (.checked :: fs)) :=
    rfl
  have hend : Reader.close ")" (t, .checked :: fs) = some (.has t' fs) := by
    show t.checked?.map (Reader.has · fs) = _
    rw [hchecked]
    rfl
  refine ⟨t', [], ?_, rfl, fun g hg => nomatch hg⟩
  exact Reader.run_step (Reader.run_append hopen hrun) ((hclose ")" (by decide)).trans hend)

end Brackets

theorem after {s : String} {op : UnaryOp} (h : Feeds ls t Level.primary)
    (hs : ∀ fs, Reader.afterOperand t fs s = some (.has (.unary op t) fs)) :
    Feeds (ls ++ [Lexeme.sign s]) (.unary op t) Level.primary := by
  intro fs hfs
  obtain ⟨u, gs, hrun, hfill, hbind⟩ := h fs hfs
  obtain rfl := hbind.eq_nil
  obtain rfl : u = t := hfill
  exact ⟨_, [], Reader.run_step hrun (hs fs), rfl, hbind⟩

theorem before {s : String} {op : UnaryOp} (h : Feeds ls t Level.unary)
    (hs : unaryOf? s = some op) : Feeds ([Lexeme.sign s] ++ ls) (.unary op t) Level.unary := by
  intro fs _
  have hheld : Holds (.unary op :: fs) Level.unary := by
    intro f hf
    obtain rfl : Frame.unary op = f := by simpa using hf
    rfl
  obtain ⟨u, gs, hrun, hfill, hbind⟩ := h _ hheld
  have hstep : Reader.step (.wants fs) (.sign s) = some (.wants (.unary op :: fs)) := by
    have hne : s ≠ "(" := by
      rintro rfl
      cases hs
    simp [Reader.step, hne, hs]
  have hnil : Reader.run (.wants fs) [] = some (.wants fs) := rfl
  refine ⟨u, gs ++ [Frame.unary op], ?_, ?_, ?_⟩
  · rw [List.append_assoc]
    exact Reader.run_append (Reader.run_step hnil hstep) hrun
  · rw [fillAll, List.foldl_append]
    show Frame.fill (fillAll gs u) (.unary op) = _
    rw [hfill]
    rfl
  · exact hbind.append rfl (Nat.le_refl _) (by decide)

theorem conditional {a b c : OpTree} {as bs cs : List Lexeme} {test : Level}
    (hc : Feeds cs c test) (htest : Level.conditional < test) (ha : Feeds as a Level.conditional)
    (hb : Feeds bs b Level.conditional) :
    Feeds (cs ++ [Lexeme.sign "?"] ++ as ++ [Lexeme.sign ":"] ++ bs) (.conditional c a b)
      Level.conditional := by
  intro fs hfs
  obtain ⟨u, gs, hrun, hfill, hbind⟩ := hc fs (hfs.mono (Nat.le_of_lt htest))
  have htaken : ∀ g ∈ gs, g.isTakenBy Level.conditional = true := by
    intro g hg
    obtain ⟨k, hk, hle, -⟩ := hbind g hg
    exact Frame.isTakenBy_of_lt hk (Nat.lt_of_lt_of_le htest hle)
  obtain ⟨v, hrun', hclose⟩ := ha.closing (f := .question c) rfl fs
  have hheld : Holds (.colon c a :: fs) Level.conditional := by
    intro f hf
    obtain rfl : Frame.colon c a = f := by simpa using hf
    rfl
  obtain ⟨w, gs'', hrun'', hfill'', hbind''⟩ := hb _ hheld
  have hquestion : Reader.step (.has u (gs ++ fs)) (.sign "?") =
      some (.wants (.question c :: fs)) := by
    show some (Reader.wants (.question (reduce _ u (gs ++ fs)).1 ::
      (reduce (Frame.isTakenBy Level.conditional) u (gs ++ fs)).2)) = _
    rw [reduce_append htaken hfs, hfill]
  refine ⟨w, gs'' ++ [Frame.colon c a], ?_, ?_, ?_⟩
  · have hasked := Reader.run_append (Reader.run_step hrun hquestion) hrun'
    rw [List.append_assoc gs'']
    exact Reader.run_append (Reader.run_step hasked (hclose ":" (by decide))) hrun''
  · rw [fillAll, List.foldl_append]
    show Frame.fill (fillAll gs'' w) (.colon c a) = _
    rw [hfill'']
    rfl
  · exact hbind''.append rfl (Nat.le_refl _) (by decide)

end Feeds

theorem feeds_operation (op : BinaryOp) {l r : OpTree} (hl : Feeds l.lexemes l l.level)
    (hr : Feeds r.lexemes r r.level) (hop : binaryOf? op.symbol = some op)
    (hne : op.isLogical = true → ∀ a b, r ≠ .binary op a b) :
    Feeds (Written.operation op (l, l.lexemes) (r, r.lexemes)) (.binary op l r) op.level := by
  unfold Written.operation
  dsimp only
  split
  next hlogical =>
    have hnests : Frame.nestsRight op.level = false := by
      cases op <;> first | rfl | cases hlogical
    exact (hl.logicalOperand hlogical).operation (hr.logicalOperand_of_ne (hne hlogical)) hop
      (.inr ⟨Nat.le_refl _, hnests⟩) (.inl (Nat.le_refl _))
  · split
    next hcoalesce =>
      have hnests : Frame.nestsRight op.level = true := by
        rw [beq_iff_eq.mp hcoalesce]
        rfl
      exact (hl.operand _).operation (hr.operand _) hop (.inl (Nat.le_refl _))
        (.inr ⟨Nat.le_refl _, hnests⟩)
    next hcoalesce =>
      have hnests : Frame.nestsRight op.level = false := by
        revert hop hcoalesce
        cases op <;> decide
      exact (hl.operand _).operation (hr.operand _) hop (.inr ⟨Nat.le_refl _, hnests⟩)
        (.inl (Nat.le_refl _))

theorem feeds_binary {l r : OpTree} (hl : Feeds l.lexemes l l.level)
    (hr : Feeds r.lexemes r r.level) {op : BinaryOp} (hop : op.isAssignment = false)
    (hne : op.isLogical = true → ∀ a b, r ≠ .binary op a b) :
    Feeds (OpTree.binary op l r).lexemes (.binary op l r) (OpTree.binary op l r).level := by
  unfold OpTree.lexemes Written.binary
  split
  next hpower =>
    rw [beq_iff_eq.mp hpower]
    exact hl.power hr
  · split
    next hindex =>
      rw [beq_iff_eq.mp hindex]
      exact (hl.operand _).index hr
    next hpower hindex =>
      split
      next hchecked =>
        have hcases : op = .addChecked ∨ op = .subtractChecked ∨ op = .multiplyChecked := by
          revert hop hchecked
          cases op <;> decide
        -- each is written like the operation without the check
        rcases hcases with rfl | rfl | rfl
        · exact (feeds_operation .add hl hr rfl nofun).checked rfl
        · exact (feeds_operation .subtract hl hr rfl nofun).checked rfl
        · exact (feeds_operation .multiply hl hr rfl nofun).checked rfl
      next hchecked =>
        have hsign : binaryOf? op.symbol = some op := by
          revert hop hpower hindex hchecked
          cases op <;> decide
        have hlevel : (OpTree.binary op l r).level = op.level := if_neg hchecked
        rw [hlevel]
        exact feeds_operation op hl hr hsign hne

theorem feeds_signed {t : OpTree} (h : Feeds t.lexemes t t.level) (isMinus : Bool) :
    Feeds (Written.signed isMinus (t, t.lexemes))
      (.unary (if isMinus then .negate else .unaryPlus) t) Level.unary := by
  have hoperand : Feeds (enclosed (t.startsWithSign isMinus || t.level < Level.unary) t.lexemes) t
      Level.unary := by
    cases hstarts : t.startsWithSign isMinus with
    | true => exact h.enclosed
    | false => exact h.operand Level.unary
  cases isMinus <;> exact hoperand.before rfl

theorem feeds_unary {t : OpTree} (h : Feeds t.lexemes t t.level) {op : UnaryOp}
    (hop : OpTree.readsUnary op = true) :
    Feeds (OpTree.unary op t).lexemes (.unary op t) (OpTree.unary op t).level := by
  cases op with
  | negate => exact feeds_signed h true
  | unaryPlus => exact feeds_signed h false
  | negateChecked => exact (feeds_signed h true).checked rfl
  | not | onesComplement | preIncrementAssign | preDecrementAssign =>
    exact (h.operand Level.unary).before rfl
  | postIncrementAssign | postDecrementAssign =>
    exact (h.operand Level.primary).after fun fs => rfl
  | _ => cases hop

/-- The lexemes of a tree are read as the tree. -/
theorem feeds_lexemes {t : OpTree} (hread : t.IsReadable) (hnested : t.IsLeftNested) :
    Feeds t.lexemes t t.level := by
  induction t with
  | name s => exact fun fs _ => ⟨_, [], rfl, rfl, fun g hg => nomatch hg⟩
  | number n isLong => exact fun fs _ => ⟨_, [], rfl, rfl, fun g hg => nomatch hg⟩
  | unary op t ih => exact feeds_unary (ih hread.2 hnested) hread.1
  | binary op l r ihl ihr =>
    exact feeds_binary (ihl hread.2.1 hnested.1) (ihr hread.2.2 hnested.2.1) hread.1 hnested.2.2
  | conditional c a b ihc iha ihb =>
    exact ((ihc hread.1 hnested.1).operand Level.coalesce).conditional (by decide)
      ((iha hread.2.1 hnested.2.1).operand _) ((ihb hread.2.2 hnested.2.2).operand _)

theorem read_of_feeds {ls : List Lexeme} {t : OpTree} {level : Level} (h : Feeds ls t level) :
    read ls = some t := by
  obtain ⟨u, gs, hrun, hfill, hbind⟩ := h [] (fun f hf => nomatch hf)
  have htaken : ∀ g ∈ gs, (g.level?.isSome) = true := by
    intro g hg
    obtain ⟨l, hl, -⟩ := hbind g hg
    simp [hl]
  have hreduce : reduceAll u (gs ++ []) = (t, []) := by
    rw [reduceAll, reduce_append htaken (by simp), hfill]
  simp only [read, hrun, hreduce]

end TreeScribe.Read
