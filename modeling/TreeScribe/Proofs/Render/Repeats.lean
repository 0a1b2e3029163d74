import TreeScribe.Proofs.Render.Occurrences

/-! How often a node is written.

A checked or power assignment writes its target on both sides, and nothing else writes anything twice:
in a tree without shared nodes, a node is written twice for each such assignment in whose target it
stands, if it is written at all (`Doc.count_written`). -/
namespace TreeScribe

/-! ### Sums over a list in which one element counts -/

section Sums

variable {α : Type} {w : α → Nat} {q : α → Bool} {as : List α}

theorem sum_eq_zero_of_countP (hw : ∀ a ∈ as, q a = false → w a = 0) (h : as.countP q = 0) :
    (as.map w).sum = 0 := by
  refine List.sum_eq_zero fun n hn => ?_
  obtain ⟨a, ha, rfl⟩ := List.mem_map.mp hn
  exact hw a ha (Bool.not_eq_true _ ▸ List.countP_eq_zero.mp h a ha)

theorem sum_eq_of_countP (hw : ∀ a ∈ as, q a = false → w a = 0) (h : as.countP q ≤ 1) {a : α}
    (ha : a ∈ as) (hq : q a = true) : (as.map w).sum = w a := by
  induction as with
  | nil => cases ha
  | cons b as ih =>
    have hrest := fun c hc => hw c (List.mem_cons_of_mem _ hc)
    rw [List.countP_cons] at h
    rw [List.map_cons, List.sum_cons]
    rcases List.mem_cons.mp ha with rfl | ha
    · rw [if_pos hq] at h
      rw [sum_eq_zero_of_countP hrest (by omega), Nat.add_zero]
    · have hpos : 0 < as.countP q := List.countP_pos_iff.mpr ⟨a, ha, hq⟩
      have hb : q b = false := by
        cases hb : q b with
        | false => rfl
        | true => simp only [hb, if_true] at h; omega
      rw [hw b (List.mem_cons_self ..) hb, Nat.zero_add]
      exact ih hrest (by simpa [hb] using h) ha

end Sums

/-! ### Repeated targets -/

namespace Node

variable {ι : Type} [DecidableEq ι]

/-- The assignment writes a target with the node in it twice. -/
def doubles (l : ι) : Form (Node ι) → Bool
  | .binary op left _ _ _ => op.repeatsTarget && l ∈ left.labels
  | _ => false

/-- The assignments that write a target with the node in it twice. -/
def repeats (l : ι) (n : Node ι) : Nat := n.nodes.countP fun x => doubles l x.form

theorem repeats_mk (l node : ι) (form : Form (Node ι)) :
    repeats l (.mk node form) =
      (form.children.map (repeats l)).sum + if doubles l form then 1 else 0 := by
  rw [repeats, nodes_mk, List.countP_cons, List.countP_flatMap]
  rfl

/-- A node that is nowhere below is in no target. -/
theorem repeats_of_notMem_children {l : ι} {n : Node ι} (h : l ∉ n.form.children.flatMap labels) :
    n.repeats l = 0 := by
  induction n using Node.induction with
  | h node form ih =>
    have hchild : ∀ c ∈ form.children, l ∉ c.labels := fun c hc hl => h (labels_subset_of_mem hc hl)
    have hsum : (form.children.map (repeats l)).sum = 0 := by
      refine List.sum_eq_zero fun n hn => ?_
      obtain ⟨⟨label, below⟩, hc, rfl⟩ := List.mem_map.mp hn
      refine ih _ hc fun hl => hchild _ hc ?_
      rw [labels_mk]
      exact List.mem_cons_of_mem _ hl
    rw [repeats_mk, hsum]
    cases form with
    | binary op left right ty m =>
      have hleft : l ∉ left.labels := hchild left (by simp [Form.children])
      simp [doubles, hleft]
    | _ => rfl

theorem repeats_of_notMem {l : ι} {n : Node ι} (h : l ∉ n.labels) : n.repeats l = 0 := by
  obtain ⟨node, form⟩ := n
  rw [labels_mk] at h
  exact repeats_of_notMem_children fun hl => h (List.mem_cons_of_mem _ hl)

/-- At most one child has the node. -/
theorem countP_children_le {l : ι} {form : Form (Node ι)} (h : (form.children.flatMap labels).Nodup) :
    form.children.countP (fun c => decide (l ∈ c.labels)) ≤ 1 := by
  have hcount : ∀ cs : List (Node ι), cs.countP (fun c => decide (l ∈ c.labels)) ≤
      (cs.flatMap labels).count l := by
    intro cs
    induction cs with
    | nil => exact Nat.le_refl 0
    | cons c cs ih =>
      rw [List.countP_cons, List.flatMap_cons, List.count_append]
      split
      next hc =>
        have hpos : 0 < c.labels.count l := List.count_pos_iff.mpr (of_decide_eq_true hc)
        omega
      next => omega
  exact (hcount _).trans (List.nodup_iff_count_le_one.mp h l)

/-- Otherwise no two parts have the node. -/
theorem countP_parts_le {l : ι} {form : Form (Node ι)} (h : (form.children.flatMap labels).Nodup)
    (hdoubles : doubles l form = false) : form.parts.countP (fun c => decide (l ∈ c.labels)) ≤ 1 := by
  have hchildren := countP_children_le (l := l) h
  cases form with
  | binary op left right ty m =>
    unfold Form.parts
    dsimp only
    split
    next hop =>
      have hleft : l ∉ left.labels := by simpa [doubles, hop] using hdoubles
      rw [List.countP_cons_of_neg (by simpa using hleft)]
      simpa [Form.children] using hchildren
    next => simpa [Form.children] using hchildren
  | _ => exact hchildren

end Node

/-! ### Ends of nodes -/

theorem BinaryOp.isAssignment_of_repeatsTarget {op : BinaryOp} (h : op.repeatsTarget = true) :
    op.isAssignment = true := by
  revert h
  cases op <;> decide

/-- The pieces of an assignment that writes its target twice. -/
theorem Arrangement.pieces_repeated (env : Env) (node : Nat) {op : BinaryOp} (left right : Expr)
    (ty : TypeRef) (m : Option MethodInfo) (hop : op.repeatsTarget = true) (mode : Mode) :
    (ofForm env node (.binary op left right ty m) mode).flatMap Step.pieces = [] ∨
      (ofForm env node (.binary op left right ty m) mode).flatMap Step.pieces =
        [.assignment node left, .child (.inPosition .value) left, .child (.inPosition .value) left,
          .child (.inPosition .value) right] := by
  have hvalue : (asValue env node (.binary op left right ty m)).flatMap Step.pieces =
      [.assignment node left, .child (.inPosition .value) left, .child (.inPosition .value) left,
        .child (.inPosition .value) right] := by
    unfold asValue assignment
    dsimp only
    rw [if_pos (BinaryOp.isAssignment_of_repeatsTarget hop)]
    unfold BinaryOp.repeatsTarget at hop
    rw [hop]
    rfl
  cases mode with
  | inPosition position => cases position <;> exact .inr hvalue
  | body returns => cases returns <;> exact .inr hvalue
  | chained returns => exact .inr hvalue
  | landing returns => exact .inr hvalue
  | elements => exact .inl rfl

/-- The piece is a child with the node in it. -/
def Piece.holds (l : Nat) (p : Piece) : Bool := p.child?.any fun e => l ∈ e.labels

theorem Arrangement.countP_holds (l : Nat) (steps : List Step) :
    (steps.flatMap Step.pieces).countP (Piece.holds l) =
      (children steps).countP fun e => decide (l ∈ e.labels) := by
  rw [children, List.countP_filterMap]
  congr 1
  funext p
  unfold Piece.holds
  cases p.child? <;> rfl

/-- The end of the text of a node comes up this often. -/
def Writes (l : Nat) (n : Nat) (x : Rendering (List Atom)) : Prop :=
  Gives x fun marks => marks.count (.note (.written l)) = n

namespace Env

variable {env : Env} {l : Nat}

theorem writes_marksOf {steps : List Step} {w : Piece → Nat}
    (h : ∀ p ∈ steps.flatMap Step.pieces, Writes l (w p) (env.marksOfPiece p)) :
    Writes l ((steps.flatMap Step.pieces).map w).sum (env.marksOf steps) := by
  induction steps with
  | nil => exact .pure rfl
  | cons step steps ih =>
    have hrest := ih fun p hp => h p (List.mem_append_right _ hp)
    cases step with
    | one p =>
      have hp := h p (List.mem_cons_self ..)
      refine hp.bind fun marks hmarks => hrest.bind fun marks' hmarks' => .pure ?_
      rw [List.count_append, hmarks, hmarks']
      rfl
    | swapped p q =>
      have hp := h p (List.mem_cons_self ..)
      have hq := h q (List.mem_cons_of_mem _ (List.mem_cons_self ..))
      refine hq.bind fun second hsecond => hp.bind fun first hfirst =>
        hrest.bind fun marks hmarks => .pure ?_
      rw [List.count_append, List.count_append, hfirst, hsecond, hmarks, List.flatMap_cons,
        List.map_append, List.sum_append]
      rfl

/-- Marks of declarations only. -/
theorem writes_declared {x : Rendering (List Atom)}
    (h : Gives x fun marks => ∀ a ∈ marks, ∃ slot, a = .declaration slot) : Writes l 0 x :=
  h.mono fun marks hmarks => List.count_eq_zero.mpr fun hmem => by
    obtain ⟨slot, hslot⟩ := hmarks _ hmem
    cases hslot

/-- The pieces of a form write ends of nodes in its children only. -/
theorem writes_piece {node : Nat} {form : Form Expr} {mode : Mode} {p : Piece}
    (hp : p ∈ (Arrangement.ofForm env node form mode).flatMap Step.pieces) (hchild : p.child? = none) :
    Writes l 0 (env.marksOfPiece p) := by
  cases p with
  | child mode' e => cases hchild
  | output e => exact writes_declared (declared_output e)
  | assignment node' left => exact writes_declared (declared_assignment node' left)
  | mention node' name =>
    refine Gives.pure (List.count_eq_zero.mpr fun hmem => ?_)
    unfold Atoms.mention at hmem
    split at hmem
    · cases hmem
    · cases List.mem_singleton.mp hmem
  | note n =>
    have hother : n ≠ .written l := by
      rintro rfl
      rcases Arrangement.special_ofForm env node form mode _
        (Arrangement.mem_special.mpr ⟨hp, rfl⟩) with h | h | ⟨-, h⟩ | ⟨_, _, h⟩
      · obtain ⟨_, _, _, _, _, _, h⟩ := h
        cases h
      · obtain ⟨_, _, h, _⟩ := h
        cases h
      · simp [Arrangement.edges] at h
      · cases h
    refine Gives.pure (List.count_eq_zero.mpr fun hmem => hother ?_)
    cases List.mem_singleton.mp hmem
    rfl

theorem writes_ended {node : Nat} {form : Form Expr} {mode : Mode} :
    Writes l (if node = l ∧ Arrangement.isNoted env node form mode then 1 else 0)
      (env.marksOf (Arrangement.ended env node form mode)) := by
  unfold Arrangement.ended
  cases Arrangement.isNoted env node form mode with
  | false => exact .pure (by simp)
  | true =>
    show Writes l _ (env.marksOf [.one (.note (.written node))])
    rw [marksOf_one]
    refine .pure ?_
    by_cases hnode : node = l <;> simp [Atoms.note, hnode]

/-- A node comes up not at all or, if it is there, twice for each target that is repeated. -/
def WritesAgain (env : Env) (l : Nat) (e : Expr) (mode : Mode) : Prop :=
  ∃ n, Writes l n ((env.renderer e).marks mode) ∧ (n = 0 ∨ l ∈ e.labels ∧ n = 2 ^ e.repeats l)

/-- The ends that a piece writes. -/
def endsOf (env : Env) (l : Nat) (p : Piece) : Nat :=
  ((env.marksOfPiece p).run []).1.count (.note (.written l))

theorem writes_endsOf {n : Nat} {p : Piece} (h : Writes l n (env.marksOfPiece p)) :
    env.endsOf l p = n :=
  h []

section Form

variable {node : Nat} {form : Form Expr} (hchildren : ∀ c ∈ form.children, ∀ mode, env.WritesAgain l c mode)
include hchildren

theorem writes_pieces {mode : Mode} {p : Piece}
    (hp : p ∈ (Arrangement.ofForm env node form mode).flatMap Step.pieces) :
    Writes l (env.endsOf l p) (env.marksOfPiece p) ∧ (env.endsOf l p = 0 ∨
      ∃ e, p.child? = some e ∧ e ∈ form.children ∧ l ∈ e.labels ∧ env.endsOf l p = 2 ^ e.repeats l) := by
  cases hchild : p.child? with
  | none =>
    have hnone := writes_piece (l := l) hp hchild
    have hends := writes_endsOf hnone
    exact ⟨hends ▸ hnone, .inl hends⟩
  | some e =>
    cases p with
    | child mode' e' =>
      obtain rfl := Option.some.inj hchild
      have hmem := Arrangement.children_ofForm env node form mode (Arrangement.mem_children_of_piece hp)
      obtain ⟨n, hn, hcount⟩ := hchildren e' hmem mode'
      have hends := writes_endsOf (p := .child mode' e') hn
      refine ⟨hends ▸ hn, hcount.imp (fun h => hends.trans h) fun ⟨hl, h⟩ => ?_⟩
      exact ⟨e', rfl, hmem, hl, hends.trans h⟩
    | _ => cases hchild

/-- What an assignment that repeats its target writes comes twice. -/
theorem ends_doubled {op : BinaryOp} {left right : Expr} {ty : TypeRef} {m : Option MethodInfo}
    (hform : form = .binary op left right ty m) (hop : op.repeatsTarget = true)
    (hright : l ∉ right.labels) (mode : Mode) :
    let n := (((Arrangement.ofForm env node form mode).flatMap Step.pieces).map (env.endsOf l)).sum
    n = 0 ∨ n = 2 ^ (left.repeats l + 1) := by
  subst hform
  have hpieces {p : Piece} (hp : p ∈ (Arrangement.ofForm env node _ mode).flatMap Step.pieces) :=
    (writes_pieces hchildren hp).2
  rcases Arrangement.pieces_repeated env node left right ty m hop mode with hnone | hsome
  · rw [hnone]
    exact .inl rfl
  · rw [hsome] at hpieces ⊢
    have hassignment : env.endsOf l (.assignment node left) = 0 :=
      writes_endsOf (writes_declared (declared_assignment node left))
    have hzero : env.endsOf l (.child (.inPosition .value) right) = 0 := by
      rcases hpieces (p := .child (.inPosition .value) right) (by simp) with h | ⟨e, he, -, hl, -⟩
      · exact h
      · obtain rfl := Option.some.inj he
        exact absurd hl hright
    show env.endsOf l _ + (env.endsOf l _ + (env.endsOf l _ + (env.endsOf l _ + 0))) = 0 ∨
      env.endsOf l _ + (env.endsOf l _ + (env.endsOf l _ + (env.endsOf l _ + 0))) = _
    rw [hassignment, hzero, Nat.pow_succ]
    -- the target comes twice, with what it repeats itself
    rcases hpieces (p := .child (.inPosition .value) left) (by simp) with h | ⟨e, he, -, -, h⟩
    · omega
    · obtain rfl := Option.some.inj he
      omega

/-- Elsewhere at most one piece has the node. -/
theorem ends_once (hnodup : (form.children.flatMap Node.labels).Nodup)
    (hdoubles : Node.doubles l form = false) (mode : Mode) :
    let n := (((Arrangement.ofForm env node form mode).flatMap Step.pieces).map (env.endsOf l)).sum
    n = 0 ∨ ∃ e ∈ form.children, l ∈ e.labels ∧ n = 2 ^ e.repeats l := by
  have hpieces {p : Piece} (hp : p ∈ (Arrangement.ofForm env node form mode).flatMap Step.pieces) :=
    (writes_pieces hchildren hp).2
  have hone : ((Arrangement.ofForm env node form mode).flatMap Step.pieces).countP (Piece.holds l) ≤ 1 := by
    rw [Arrangement.countP_holds]
    exact ((Arrangement.children_ofForm_subperm env node form mode).countP_le _).trans
      (Node.countP_parts_le hnodup hdoubles)
  have hnone : ∀ p ∈ (Arrangement.ofForm env node form mode).flatMap Step.pieces,
      p.holds l = false → env.endsOf l p = 0 := by
    intro p hp hchild
    rcases hpieces hp with h | ⟨e, he, -, hl, -⟩
    · exact h
    · rw [Piece.holds, he, Option.any_some, decide_eq_false_iff_not] at hchild
      exact absurd hl hchild
  rcases Nat.eq_zero_or_pos (((Arrangement.ofForm env node form mode).flatMap Step.pieces).countP
      (Piece.holds l)) with hzero | hpos
  · exact .inl (sum_eq_zero_of_countP hnone hzero)
  · obtain ⟨p, hp, hchild⟩ := List.countP_pos_iff.mp hpos
    dsimp only
    rw [sum_eq_of_countP hnone hone hp hchild]
    exact (hpieces hp).imp_right fun ⟨e, _, h⟩ => ⟨e, h⟩

theorem writes_ofForm (hnodup : (form.children.flatMap Node.labels).Nodup) (mode : Mode) :
    ∃ n, Writes l n (env.marksOf (Arrangement.ofForm env node form mode)) ∧
      (n = 0 ∨ l ∈ form.children.flatMap Node.labels ∧ n = 2 ^ (Node.mk node form).repeats l) := by
  refine ⟨_, writes_marksOf fun p hp => (writes_pieces hchildren hp).1, ?_⟩
  have hother : ∀ c ∈ form.children, decide (l ∈ c.labels) = false → c.repeats l = 0 :=
    fun c _ hc => Node.repeats_of_notMem (of_decide_eq_false hc)
  have hsum {e : Expr} (he : e ∈ form.children) (hl : l ∈ e.labels) :
      (form.children.map (Node.repeats l)).sum = e.repeats l :=
    sum_eq_of_countP hother (Node.countP_children_le hnodup) he (decide_eq_true hl)
  cases hdoubles : Node.doubles l form with
  | true =>
    cases form with
    | binary op left right ty m =>
      obtain ⟨hop, hleft⟩ : op.repeatsTarget = true ∧ l ∈ left.labels := by
        simpa [Node.doubles] using hdoubles
      have hmem : left ∈ (Form.binary op left right ty m).children := List.mem_cons_self ..
      have hright : l ∉ right.labels := fun hright =>
        List.disjoint_of_nodup_append (by simpa [Form.children] using hnodup) hleft hright
      rw [Node.repeats_mk, hsum hmem hleft, if_pos hdoubles]
      exact (ends_doubled hchildren rfl hop hright mode).imp_right fun h =>
        ⟨List.mem_flatMap.mpr ⟨left, hmem, hleft⟩, h⟩
    | _ => cases hdoubles
  | false =>
    refine (ends_once hchildren hnodup hdoubles mode).imp_right fun ⟨e, he, hl, h⟩ => ?_
    rw [Node.repeats_mk, hsum he hl, hdoubles]
    exact ⟨List.mem_flatMap.mpr ⟨e, he, hl⟩, h⟩

end Form

variable (hcustom : env.settings.custom = [])
include hcustom

theorem writesAgain {e : Expr} (hnodup : e.labels.Nodup) (mode : Mode) : env.WritesAgain l e mode := by
  induction e using Node.induction generalizing mode with
  | h node form ih =>
    rw [Node.labels_mk, List.nodup_cons] at hnodup
    obtain ⟨hnode, hrest⟩ := hnodup
    have hchildren : ∀ c ∈ form.children, ∀ mode, env.WritesAgain l c mode :=
      fun c hc mode => ih c hc ((List.nodup_flatMap.mp hrest).1 c hc) mode
    obtain ⟨n, hn, hcount⟩ : ∃ n, Writes l n (env.marksOf (Arrangement.ofForm env node form mode)) ∧ _ :=
      writes_ofForm hchildren hrest mode
    have hended : Writes l _ (env.marksOf (Arrangement.ended env node form mode)) := writes_ended
    refine ⟨n + if node = l ∧ Arrangement.isNoted env node form mode then 1 else 0, ?_, ?_⟩
    · rw [marks_renderer hcustom, Arrangement.ofNode, marksOf_append]
      refine Gives.bind hn fun marks hmarks => Gives.bind hended fun marks' hmarks' => .pure ?_
      rw [List.count_append, hmarks, hmarks']
    · rw [Node.labels_mk]
      by_cases hl : node = l
      · -- the node itself is in none of its children
        subst hl
        have hzero : n = 0 := hcount.resolve_right fun h => hnode h.1
        rw [hzero, Node.repeats_of_notMem_children hnode]
        cases Arrangement.isNoted env node form mode with
        | false => exact .inl (by simp)
        | true => exact .inr ⟨List.mem_cons_self .., by simp⟩
      · rw [if_neg fun h => hl h.1, Nat.add_zero]
        exact hcount.imp_right fun h => ⟨List.mem_cons_of_mem _ h.1, h.2⟩

end Env

/-- **A node is written twice for each target of a checked or power assignment that it stands in**, if it
is written at all: nothing else is written twice. -/
theorem Doc.count_written (settings : Settings) (hcustom : settings.custom = []) (e : Expr)
    (hnodup : e.labels.Nodup) (l : Nat) :
    (Doc.ofExpr settings e).atoms.count (.note (.written l)) = 0 ∨
      (Doc.ofExpr settings e).atoms.count (.note (.written l)) = 2 ^ e.repeats l := by
  obtain ⟨n, hn, hcount⟩ : (Env.ofExpr settings e).WritesAgain l e (Env.rootMode e) :=
    Env.writesAgain hcustom hnodup _
  rw [← Env.marks_root] at hn
  have hmarks : (Doc.ofExpr settings e).atoms.count (.note (.written l)) = n := by
    rw [← hn []]
    exact (List.count_filter rfl).symm
  rw [hmarks]
  exact hcount.imp_right And.right

/-- `a[Next()] += 1`, checked. -/
def countedUp : Expr :=
  let next : MethodInfo :=
    { name := "Next", declaring := .object, returnType := .int, isStatic := true, parameters := [] }
  let array : Expr := .mk 2 (.parameter { name := "a", ty := .object })
  let element : Expr := .mk 1 (.binary .arrayIndex array (.mk 3 (.call none next [])) .int none)
  .mk 0 (.binary .addAssignChecked element (.mk 4 (.constant ⟨.int 1, .int⟩)) .int none)

/-- `a[object.Next()] = checked(a[object.Next()] + 1)` -/
theorem Doc.count_written_countedUp :
    ({} : Settings).custom = [] ∧ countedUp.labels.Nodup ∧ countedUp.repeats 3 = 1 ∧
      (Doc.ofExpr {} countedUp).atoms.count (.note (.written 3)) = 2 := by
  have hnodup : countedUp.labels.Nodup := by decide +kernel
  have hwritten : (Doc.ofExpr {} countedUp).atoms.count (.note (.written 3)) ≠ 0 := by decide +kernel
  have hrepeats : countedUp.repeats 3 = 1 := by decide +kernel
  have hcount := (Doc.count_written {} rfl countedUp hnodup 3).resolve_left hwritten
  rw [hrepeats] at hcount
  exact ⟨rfl, hnodup, hrepeats, hcount⟩

end TreeScribe
