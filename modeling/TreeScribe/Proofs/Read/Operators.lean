import TreeScribe.Proofs.Read.Operators.Feeds

/-! Reading lexemes as a tree of operators, by the levels of the operators.

Nested operations of `&&`, and likewise of `||`, are written without any parentheses, so that trees are
read back up to the way these are nested (`read_lexemes`). -/
namespace TreeScribe.Read

namespace OpTree

/-- `l op r` with all operations of `op` nested to the left, if those in `l` are. -/
def joined (op : BinaryOp) (l : OpTree) : OpTree → OpTree
  | .binary inner a b =>
    if inner = op then .binary op (joined op l a) b else .binary op l (.binary inner a b)
  | r => .binary op l r

/-- The tree with the operations of `&&` and of `||` nested to the left. -/
def leftNested : OpTree → OpTree
  | .binary op l r =>
    if op.isLogical then joined op l.leftNested r.leftNested
    else .binary op l.leftNested r.leftNested
  | .unary op t => .unary op t.leftNested
  | .conditional c a b => .conditional c.leftNested a.leftNested b.leftNested
  | t => t

end OpTree

/-- The trees differ in how operations of `&&`, and of `||`, are nested. -/
inductive Reassociates : OpTree → OpTree → Prop where
  | assoc {op : BinaryOp} (hop : op.isLogical = true) (a b c : OpTree) :
      Reassociates (.binary op a (.binary op b c)) (.binary op (.binary op a b) c)
  | refl (t : OpTree) : Reassociates t t
  | symm {t u : OpTree} : Reassociates t u → Reassociates u t
  | trans {t u v : OpTree} : Reassociates t u → Reassociates u v → Reassociates t v
  | unary (op : UnaryOp) {t u : OpTree} :
      Reassociates t u → Reassociates (.unary op t) (.unary op u)
  | binary (op : BinaryOp) {l l' r r' : OpTree} :
      Reassociates l l' → Reassociates r r' → Reassociates (.binary op l r) (.binary op l' r')
  | conditional {c c' a a' b b' : OpTree} :
      Reassociates c c' → Reassociates a a' → Reassociates b b' →
        Reassociates (.conditional c a b) (.conditional c' a' b')

namespace OpTree

theorem joined_eq_binary (op : BinaryOp) (l r : OpTree) : ∃ a b, joined op l r = .binary op a b := by
  cases r with
  | binary inner a b =>
    unfold joined
    split
    · exact ⟨_, _, rfl⟩
    · exact ⟨_, _, rfl⟩
  | _ => exact ⟨_, _, rfl⟩

section Joined

variable {op : BinaryOp} (hop : op.isLogical = true)

include hop

theorem reassociates_joined (l r : OpTree) : Reassociates (.binary op l r) (joined op l r) := by
  induction r with
  | binary inner a b iha _ =>
    unfold joined
    split
    next heq =>
      subst heq
      exact (Reassociates.assoc hop l a b).trans (.binary _ iha (.refl b))
    · exact .refl _
  | _ => exact .refl _

theorem isLeftNested_joined {l r : OpTree} (hl : l.IsLeftNested) (hr : r.IsLeftNested) :
    (joined op l r).IsLeftNested := by
  induction r with
  | binary inner a b iha _ =>
    unfold joined
    split
    next heq =>
      subst heq
      exact ⟨iha hr.1, hr.2.1, hr.2.2⟩
    next hne =>
      refine ⟨hl, hr, fun _ a' b' heq => ?_⟩
      cases heq
      exact hne rfl
  | _ => exact ⟨hl, hr, fun _ _ _ => nofun⟩

theorem isReadable_joined {l r : OpTree} (hl : l.IsReadable) (hr : r.IsReadable) :
    (joined op l r).IsReadable := by
  have hassign : op.isAssignment = false := by
    cases op <;> first | rfl | cases hop
  induction r with
  | binary inner a b iha _ =>
    unfold joined
    split
    · exact ⟨hassign, iha hr.2.1, hr.2.2⟩
    · exact ⟨hassign, hl, hr⟩
  | _ => exact ⟨hassign, hl, hr⟩

theorem lexemes_logical (l r : OpTree) :
    (OpTree.binary op l r).lexemes =
      Written.logicalOperand op (l, l.lexemes) ++ [Lexeme.sign op.symbol] ++
        Written.logicalOperand op (r, r.lexemes) := by
  cases op with
  | andAlso | orElse => rfl
  | _ => cases hop

theorem lexemes_joined (l r : OpTree) :
    (joined op l r).lexemes = (OpTree.binary op l r).lexemes := by
  have hsame (a b : OpTree) (ls : List Lexeme) :
      Written.logicalOperand op (.binary op a b, ls) = ls := by
    simp [Written.logicalOperand]
  induction r with
  | binary inner a b iha _ =>
    unfold joined
    split
    next heq =>
      subst heq
      obtain ⟨a', b', hjoined⟩ := joined_eq_binary inner l a
      have hleft : Written.logicalOperand inner (joined inner l a, (joined inner l a).lexemes) =
          (OpTree.binary inner l a).lexemes := by
        rw [hjoined, hsame, ← hjoined, iha]
      rw [lexemes_logical hop, lexemes_logical hop, hleft, hsame, lexemes_logical hop,
        lexemes_logical hop a b]
      simp only [List.append_assoc]
    · rfl
  | _ => rfl

end Joined

/-! Nesting to the left keeps all that writing looks at. -/

theorem level_leftNested (t : OpTree) : t.leftNested.level = t.level := by
  cases t with
  | binary op l r =>
    unfold leftNested
    split
    · obtain ⟨a, b, hjoined⟩ := joined_eq_binary op l.leftNested r.leftNested
      rw [hjoined]
      rfl
    · rfl
  | _ => rfl

theorem startsWithSign_leftNested (isMinus : Bool) (t : OpTree) :
    t.leftNested.startsWithSign isMinus = t.startsWithSign isMinus := by
  cases t with
  | binary op l r =>
    unfold leftNested
    split
    · obtain ⟨a, b, hjoined⟩ := joined_eq_binary op l.leftNested r.leftNested
      rw [hjoined]
      rfl
    · rfl
  | _ => rfl

theorem operand_leftNested (t : OpTree) (ls : List Lexeme) (level : Level) :
    Written.operand (t.leftNested, ls) level = Written.operand (t, ls) level := by
  simp only [Written.operand, level_leftNested]

theorem logicalOperand_leftNested (op : BinaryOp) (t : OpTree) (ls : List Lexeme) :
    Written.logicalOperand op (t.leftNested, ls) = Written.logicalOperand op (t, ls) := by
  cases t with
  | binary inner l r =>
    have hroot : ∃ a b, (OpTree.binary inner l r).leftNested = .binary inner a b := by
      unfold leftNested
      split
      · exact joined_eq_binary ..
      · exact ⟨_, _, rfl⟩
    obtain ⟨a, b, hroot⟩ := hroot
    have hoperand := operand_leftNested (.binary inner l r) ls (op.level + 1)
    rw [hroot] at hoperand ⊢
    simp only [Written.logicalOperand, hoperand]
  | _ => rfl

theorem lexemes_leftNested (t : OpTree) : t.leftNested.lexemes = t.lexemes := by
  induction t with
  | name s => rfl
  | number n isLong => rfl
  | unary op t ih =>
    simp only [leftNested, lexemes, ih]
    cases op <;>
      simp only [Written.unary, Written.signed, operand_leftNested, level_leftNested,
        startsWithSign_leftNested]
  | conditional c a b ihc iha ihb =>
    simp only [leftNested, lexemes, ihc, iha, ihb, Written.conditional, operand_leftNested]
  | binary op l r ihl ihr =>
    have hbinary : (OpTree.binary op l.leftNested r.leftNested).lexemes =
        (OpTree.binary op l r).lexemes := by
      simp only [lexemes, ihl, ihr, Written.binary, Written.operation, operand_leftNested,
        logicalOperand_leftNested]
    unfold leftNested
    split
    next hop => rw [lexemes_joined hop, hbinary]
    · exact hbinary

theorem isLeftNested_leftNested (t : OpTree) : t.leftNested.IsLeftNested := by
  induction t with
  | name s => trivial
  | number n isLong => trivial
  | unary op t ih => exact ih
  | conditional c a b ihc iha ihb => exact ⟨ihc, iha, ihb⟩
  | binary op l r ihl ihr =>
    unfold leftNested
    split
    next hop => exact isLeftNested_joined hop ihl ihr
    next hop => exact ⟨ihl, ihr, fun h => absurd h hop⟩

theorem IsReadable.leftNested {t : OpTree} (h : t.IsReadable) : t.leftNested.IsReadable := by
  induction t with
  | name s => trivial
  | number n isLong => trivial
  | unary op t ih => exact ⟨h.1, ih h.2⟩
  | conditional c a b ihc iha ihb => exact ⟨ihc h.1, iha h.2.1, ihb h.2.2⟩
  | binary op l r ihl ihr =>
    unfold OpTree.leftNested
    split
    next hop => exact isReadable_joined hop (ihl h.2.1) (ihr h.2.2)
    · exact ⟨h.1, ihl h.2.1, ihr h.2.2⟩

theorem reassociates_leftNested (t : OpTree) : Reassociates t t.leftNested := by
  induction t with
  | name s => exact .refl _
  | number n isLong => exact .refl _
  | unary op t ih => exact .unary op ih
  | conditional c a b ihc iha ihb => exact .conditional ihc iha ihb
  | binary op l r ihl ihr =>
    unfold leftNested
    split
    next hop => exact (Reassociates.binary op ihl ihr).trans (reassociates_joined hop _ _)
    · exact .binary op ihl ihr

end OpTree

/-- **The lexemes of a tree are read as the tree, up to how `&&` and `||` are nested.** -/
theorem read_lexemes {t : OpTree} (h : t.IsReadable) : read t.lexemes = some t.leftNested := by
  have hfeeds := feeds_lexemes h.leftNested t.isLeftNested_leftNested
  rw [t.lexemes_leftNested] at hfeeds
  exact read_of_feeds hfeeds

end TreeScribe.Read
