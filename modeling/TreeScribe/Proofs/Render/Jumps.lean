import TreeScribe.Proofs.Analysis.Records
import TreeScribe.Proofs.Render.Laid
import TreeScribe.Proofs.Render.Nesting
import TreeScribe.Proofs.Render.Requests

/-! Where jumps lead.

A `goto` finds the line of its label if and only if a label or a loop that is left there is rendered too;
the start of a loop has no line. A `break` or `continue` names no target: it leads to the innermost loop,
or for `break` to the innermost switch, and this is the loop that is meant exactly if no other one stands
between (`Doc.jumps_ofExpr`). -/
namespace TreeScribe

/-! ### Lines of labels -/

/-- Where a label is noted, its line is written. -/
theorem Laid.labelLine_isInfix {as : Atoms} (h : WellLaid as) {target : Target}
    (hmem : .note (.label target) ∈ as) : Atoms.labelLine target <:+: as := by
  induction h with
  | nil => cases hmem
  | flat hflat =>
    obtain rfl := List.mem_singleton.mp hmem
    cases hflat
  | typeName options t =>
    rw [Atoms.typeName, List.mem_append, List.mem_map] at hmem
    rcases hmem with hmem | ⟨_, -, hmem⟩
    · cases List.mem_singleton.mp hmem
    · cases hmem
  | labelLine t =>
    have htext (s : String) : .note (.label target) ∉ Atoms.text s := by
      unfold Atoms.text Atoms.token
      split <;> simp
    simp only [Atoms.labelLine, List.mem_append, htext, or_false] at hmem
    cases List.mem_singleton.mp hmem
    exact List.infix_rfl
  | append _ _ ih ih' =>
    rcases List.mem_append.mp hmem with hmem | hmem
    · exact (ih hmem).trans (List.prefix_append ..).isInfix
    · exact (ih' hmem).trans (List.suffix_append ..).isInfix
  | @indented as _ ih =>
    have hmem : .note (.label target) ∈ as := by simpa [Atoms.indented] using hmem
    exact (ih hmem).trans ⟨[.indent], [.unindent], rfl⟩
  | @bracketed as opening closing _ ih =>
    have hmem : .note (.label target) ∈ as := by simpa [Atoms.bracketed] using hmem
    exact (ih hmem).trans ⟨[.opening opening], [.closing closing], rfl⟩

/-- Whatever is made of a piece is among what is made of all. -/
theorem Step.subset_collect (make : Piece → Rendering Atoms) {steps : List Step} {p : Piece}
    (hp : p ∈ steps.flatMap Step.pieces) (declared : List Slot) :
    ∃ declared', ((make p).run declared').1 ⊆ ((collect make steps).run declared).1 := by
  induction steps generalizing declared with
  | nil => cases hp
  | cons step steps ih =>
    cases step with
    | one q =>
      rcases List.mem_cons.mp hp with rfl | hp
      · exact ⟨declared, List.subset_append_left ..⟩
      · obtain ⟨declared', h⟩ := ih hp ((make q).run declared).2
        exact ⟨declared', List.Subset.trans h (List.subset_append_right ..)⟩
    | swapped q r =>
      obtain rfl | rfl | hp : p = q ∨ p = r ∨ p ∈ steps.flatMap Step.pieces := by
        simpa [Step.pieces] using hp
      · refine ⟨((make r).run declared).2, List.Subset.trans ?_ (List.subset_append_left ..)⟩
        exact List.subset_append_left ..
      · refine ⟨declared, List.Subset.trans ?_ (List.subset_append_left ..)⟩
        exact List.subset_append_right ..
      · obtain ⟨declared', h⟩ := ih hp ((make q).run ((make r).run declared).2).2
        exact ⟨declared', List.Subset.trans h (List.subset_append_right ..)⟩

/-- Whatever is among what is made of all comes from a piece. -/
theorem Step.exists_of_mem_collect {make : Piece → Rendering Atoms} {steps : List Step} {a : Atom}
    {declared : List Slot} (h : a ∈ ((collect make steps).run declared).1) :
    ∃ p ∈ steps.flatMap Step.pieces, ∃ declared', a ∈ ((make p).run declared').1 := by
  induction steps generalizing declared with
  | nil => cases h
  | cons step steps ih =>
    cases step with
    | one q =>
      rcases List.mem_append.mp h with h | h
      · exact ⟨q, List.mem_cons_self .., declared, h⟩
      · obtain ⟨p, hp, h⟩ := ih h
        exact ⟨p, List.mem_cons_of_mem _ hp, h⟩
    | swapped q r =>
      rcases List.mem_append.mp h with h | h
      · rcases List.mem_append.mp h with h | h
        · exact ⟨q, List.mem_cons_self .., _, h⟩
        · exact ⟨r, List.mem_cons_of_mem _ (List.mem_cons_self ..), _, h⟩
      · obtain ⟨p, hp, h⟩ := ih h
        exact ⟨p, List.mem_cons_of_mem _ (List.mem_cons_of_mem _ hp), h⟩

/-- Except in a list of elements, the label of a node is among its pieces if something jumps there. -/
theorem Arrangement.label_mem_pieces {env : Env} {node : Nat} {form : Form Expr} {target : Target}
    (hlanding : form.landing? = some target) (hjump : env.analysis.isJumpTarget target = true) {mode : Mode}
    (hmode : mode ≠ .elements) : .note (.label target) ∈ (ofForm env node form mode).flatMap Step.pieces := by
  have hline : .note (.label target) ∈ (landing env (some target)).flatMap Step.pieces := by
    rw [landing, Option.filter_some_pos hjump]
    exact List.mem_singleton_self _
  have happend {first steps : List Step} (h : .note (.label target) ∈ steps.flatMap Step.pieces) :
      .note (.label target) ∈ (first ++ steps).flatMap Step.pieces := by
    rw [List.flatMap_append]
    exact List.mem_append_right _ h
  cases form with
  | loop loopBody breakTarget continueTarget =>
    obtain rfl : breakTarget = some target := hlanding
    cases mode with
    | inPosition position => cases position <;> exact happend hline
    | body returns => cases returns <;> exact happend hline
    | chained returns => exact happend hline
    | landing returns => exact happend hline
    | elements => exact absurd rfl hmode
  | label t defaultValue =>
    obtain rfl : t = target := Option.some.inj hlanding
    have hlabel (returns : Bool) :
        .note (.label t) ∈ (label env t defaultValue returns).flatMap Step.pieces := by
      rw [label, List.flatMap_append]
      exact List.mem_append_left _ hline
    cases mode with
    | inPosition position =>
      cases position with
      | value => exact hline
      | statement => exact hline
      | returning => exact hlabel true
    | body returns =>
      cases returns with
      | true => exact hlabel true
      | false => exact hline
    | chained returns => exact hline
    | landing returns => exact hlabel returns
    | elements => exact absurd rfl hmode
  | _ => cases hlanding

/-- Neither a label nor a loop is a leaf or an array. -/
theorem Node.ne_of_landing {x : Expr} {target : Target} (h : x.form.landing? = some target) :
    x.isLeaf = false ∧ Render.isElementArray x = false := by
  obtain ⟨node, form⟩ := x
  cases form with
  | loop loopBody breakTarget continueTarget => exact ⟨rfl, rfl⟩
  | label target defaultValue => exact ⟨rfl, rfl⟩
  | _ => cases h

namespace Env

variable {env : Env} {e x : Expr} {request asked : Mode}

section Marks

variable (hcustom : env.settings.custom = [])
include hcustom

/-- The marks of whatever is asked for are among all marks. -/
theorem marks_of_asks (h : env.Asks e request x asked) (declared : List Slot) : ∃ declared',
    (((env.renderer x).marks asked).run declared').1 ⊆ (((env.renderer e).marks request).run declared).1 := by
  induction h generalizing declared with
  | here e request => exact ⟨declared, List.Subset.refl _⟩
  | @there e c x request request' asked hpiece _ ih =>
    obtain ⟨node, form⟩ := e
    have hmem : .child request' c ∈ (Arrangement.ofNode env node form request).flatMap Step.pieces := by
      rw [Arrangement.ofNode, List.flatMap_append]
      exact List.mem_append_left _ hpiece
    rw [marks_renderer hcustom]
    obtain ⟨between, hbetween⟩ := Step.subset_collect env.marksOfPiece hmem declared
    obtain ⟨declared', h⟩ := ih between
    exact ⟨declared', List.Subset.trans h hbetween⟩

/-- A label is noted only where a node that lands there is asked for. -/
theorem asks_of_mem_label {target : Target} {declared : List Slot}
    (h : .note (.label target) ∈ (((env.renderer e).marks request).run declared).1) :
    ∃ x asked, env.Asks e request x asked ∧ x.form.landing? = some target := by
  induction e using Node.induction generalizing request declared with
  | h node form ih =>
    rw [marks_renderer hcustom] at h
    obtain ⟨p, hp, declared', h⟩ := Step.exists_of_mem_collect h
    have hnone {x : Rendering Atoms} (hx : Gives x fun marks => ∀ a ∈ marks, ∃ slot, a = .declaration slot)
        (h : .note (.label target) ∈ (x.run declared').1) : False := by
      obtain ⟨slot, hslot⟩ := hx declared' _ h
      cases hslot
    rw [Arrangement.ofNode, List.flatMap_append, List.mem_append] at hp
    rcases hp with hp | hp
    · cases p with
      | child mode c =>
        have hmem := Arrangement.children_ofForm env node form request
          (Arrangement.mem_children_of_piece hp)
        obtain ⟨x, asked, hasks, hlanding⟩ := ih c hmem h
        exact ⟨x, asked, .there hp hasks, hlanding⟩
      | output c => exact (hnone (declared_output c) h).elim
      | assignment n left => exact (hnone (declared_assignment n left) h).elim
      | mention n name =>
        change .note (.label target) ∈ Atoms.mention n name at h
        unfold Atoms.mention at h
        split at h
        · cases h
        · cases List.mem_singleton.mp h
      | note n =>
        cases List.mem_singleton.mp h
        obtain ⟨_, _, _, _, _, _, h⟩ | ⟨_, _, h, _⟩ | ⟨-, h⟩ | ⟨t, hlanding, h⟩ :=
          Arrangement.special_ofForm env node form request _ (Arrangement.mem_special.mpr ⟨hp, rfl⟩)
        · cases h
        · cases h
        · simp [Arrangement.edges] at h
        · cases h
          exact ⟨.mk node form, request, .here .., hlanding⟩
    · unfold Arrangement.ended at hp
      split at hp
      · obtain rfl := List.mem_singleton.mp hp
        cases List.mem_singleton.mp h
      · cases hp

end Marks

end Env

/-! ### Loops and switches that catch a jump -/

/-- A loop catches every `break` and `continue`, a switch every `break`. -/
def Form.catches {α : Type} (kind : JumpKind) : Form α → Bool
  | .loop _ _ _ => kind == .break || kind == .continue
  | .switch _ _ _ _ => kind == .break
  | _ => false

/-- What a jump leads to within these constructs, the innermost of which is the first. -/
def Node.catcher {ι : Type} (kind : JumpKind) (around : List (Node ι)) : Option (Node ι) :=
  around.find? (·.form.catches kind)

namespace Node.Within

variable {ι : Type} {n x : Node ι} {around : List (Node ι)}

/-- What stands further in is smaller. -/
theorem sizes (h : Within n x around) :
    around.Pairwise (fun y z => y.size < z.size) ∧ ∀ y ∈ around, y.size ≤ n.size := by
  induction h with
  | here n => exact ⟨.nil, fun y hy => nomatch hy⟩
  | @outside n c x around hc _ ih =>
    obtain ⟨node, form⟩ := n
    have hsize := Node.size_lt_of_mem (l := node) (form.outside_subset hc)
    exact ⟨ih.1, fun y hy => (ih.2 y hy).trans (Nat.le_of_lt hsize)⟩
  | @inside n c x around hc _ ih =>
    obtain ⟨node, form⟩ := n
    have hsize := Node.size_lt_of_mem (l := node) (form.inside_subset hc)
    have hbelow : ∀ y ∈ around, y.size < (mk node form).size := fun y hy =>
      Nat.lt_of_le_of_lt (ih.2 y hy) hsize
    refine ⟨List.pairwise_append.mpr ⟨ih.1, List.pairwise_singleton .., ?_⟩, ?_⟩
    · rintro y hy z hz
      obtain rfl := List.mem_singleton.mp hz
      exact hbelow y hy
    · intro y hy
      rcases List.mem_append.mp hy with hy | hy
      · exact Nat.le_of_lt (hbelow y hy)
      · obtain rfl := List.mem_singleton.mp hy
        exact Nat.le_refl _

/-- A construct catches the jumps for which nothing further in does. -/
theorem catcher_eq_some_iff {kind : JumpKind} {inner outer : List (Node ι)} {target : Node ι}
    (h : Within n x (inner ++ target :: outer)) (hcatches : target.form.catches kind = true) :
    catcher kind (inner ++ target :: outer) = some target ↔ ∀ y ∈ inner, y.form.catches kind = false := by
  rw [catcher, List.find?_append]
  cases hinner : inner.find? (·.form.catches kind) with
  | none =>
    have hfirst : (target :: outer).find? (·.form.catches kind) = some target := by
      rw [List.find?_cons, hcatches]
    rw [Option.none_or, hfirst]
    refine ⟨fun _ y hy => ?_, fun _ => rfl⟩
    exact Bool.not_eq_true _ ▸ List.find?_eq_none.mp hinner y hy
  | some y =>
    have hy := List.mem_of_find?_eq_some hinner
    have hsize := (List.pairwise_append.mp h.sizes.1).2.2 y hy target (List.mem_cons_self ..)
    refine ⟨fun heq => ?_, fun hnone => ?_⟩
    · obtain rfl := Option.some.inj heq
      omega
    · have hcaught := List.find?_some hinner
      rw [hnone y hy] at hcaught
      cases hcaught

end Node.Within

/-! ### Jumps of an expression -/

section Asked

variable {settings : Settings} {e x : Expr} {asked : Mode}

/-- A `goto` that is rendered has been met, and its target noted. -/
theorem Env.isJumpTarget_of_asks (h : (Env.ofExpr settings e).Asks e (Env.rootMode e) x asked)
    {target : Target} {result : Option Expr} {ty : TypeRef} (hform : x.form = .jump .goto target result ty) :
    (Analysis.ofExpression settings e).isJumpTarget target = true := by
  have hnot : x.isLeaf = false := by rw [Node.isLeaf, hform]
  obtain hleaf | ⟨q, hmeets, -⟩ := Env.meets_of_asks_root h
  · rw [hnot] at hleaf
    cases hleaf
  · have hstep : .jump target ∈ Move.stepsAll (Moves.ofExpr settings .expression x q) := by
      unfold Moves.ofExpr
      rw [hform]
      cases q <;> exact List.mem_append_left _ (List.mem_singleton_self _)
    exact List.contains_iff_mem.mpr (Visit.recorded_of_meets hmeets hstep)

/-- The line of a label is written if a node that lands there is rendered, and not otherwise. -/
theorem Doc.labelLine_isInfix_iff (hcustom : settings.custom = []) {target : Target}
    (hjump : (Analysis.ofExpression settings e).isJumpTarget target = true) :
    Atoms.labelLine target <:+: (Doc.ofExpr settings e).atoms ↔
      ∃ x asked, (Env.ofExpr settings e).Asks e (Env.rootMode e) x asked ∧
        x.form.landing? = some target := by
  have hmarks : (Doc.ofExpr settings e).marks =
      ((((Env.ofExpr settings e).renderer e).marks (Env.rootMode e)).run []).1 := by
    rw [← Env.marks_root]
    rfl
  constructor
  · intro h
    have hmem : .note (.label target) ∈ (Doc.ofExpr settings e).marks :=
      List.mem_filter.mpr ⟨h.subset (List.mem_cons_self ..), rfl⟩
    rw [hmarks] at hmem
    exact Env.asks_of_mem_label hcustom hmem
  · rintro ⟨x, asked, hasks, hlanding⟩
    have hmode : asked ≠ .elements := by
      rintro rfl
      obtain ⟨hleaf, harray⟩ := Node.ne_of_landing hlanding
      rcases Env.meets_of_asks_root hasks with h | ⟨q, -, helements⟩
      · rw [hleaf] at h
        cases h
      · exact absurd helements (by rw [Fits, harray]; exact Bool.false_ne_true)
    obtain ⟨node, form⟩ := x
    obtain ⟨declared, hsubset⟩ := Env.marks_of_asks hcustom hasks []
    rw [← hmarks, Env.marks_renderer hcustom, Arrangement.ofNode, Env.marksOf_append] at hsubset
    have hmem : .note (.label target) ∈
        (Arrangement.ofForm (Env.ofExpr settings e) node form asked).flatMap Step.pieces :=
      Arrangement.label_mem_pieces hlanding hjump hmode
    obtain ⟨declared', hpiece⟩ := Step.subset_collect (Env.ofExpr settings e).marksOfPiece hmem declared
    have hnote : .note (.label target) ∈ (Doc.ofExpr settings e).marks :=
      hsubset (List.mem_append_left _ (hpiece (List.mem_singleton_self _)))
    exact (Doc.wellLaid_ofExpr settings e).labelLine_isInfix (List.mem_filter.mp hnote).1

/-- **A `goto` that is rendered finds the line of its label exactly if a label or a loop that is left
there is rendered. A node that ends in the text stands within the loops, switches and lambdas that are
open there, so that a `break` or `continue` leads to a loop exactly if nothing further in catches it.** -/
theorem Doc.jumps_ofExpr (settings : Settings) (hcustom : settings.custom = []) (e : Expr) :
    (∀ j asked target result ty, (Env.ofExpr settings e).Asks e (Env.rootMode e) j asked →
      j.form = .jump .goto target result ty →
        (Atoms.labelLine target <:+: (Doc.ofExpr settings e).atoms ↔
          ∃ x asked, (Env.ofExpr settings e).Asks e (Env.rootMode e) x asked ∧
            x.form.landing? = some target)) ∧
    ∀ (before : Atoms) l after, (Doc.ofExpr settings e).atoms = before ++ .note (.written l) :: after →
      ∃ j around, e.Within j around ∧ j.label = l ∧ before.opened = around.map Node.label ∧
        ∀ kind inner loop outer, around = inner ++ loop :: outer → loop.form.catches kind = true →
          (Node.catcher kind around = some loop ↔ ∀ y ∈ inner, y.form.catches kind = false) := by
  constructor
  · intro j asked target result ty hasks hform
    exact Doc.labelLine_isInfix_iff hcustom (Env.isJumpTarget_of_asks hasks hform)
  · intro before l after heq
    have hnests := Doc.nests_ofExpr settings hcustom e
    rw [heq] at hnests
    obtain ⟨j, around, hwithin, hlabel, hopened⟩ := hnests.opened
    refine ⟨j, around, hwithin, hlabel, hopened, ?_⟩
    rintro kind inner loop outer rfl hcatches
    exact hwithin.catcher_eq_some_iff hcatches

end Asked

/-- A loop in a loop, with a `break` that is meant to leave both. -/
def loopInLoop : Expr :=
  let out : Target := { name := some "out", ty := .void }
  .mk 0 (.loop (.mk 1 (.loop (.mk 2 (.jump .break out none .void)) none none)) (some out) none)

/-- The `break` stands in both loops, and the inner one comes first. -/
theorem Doc.jumps_loopInLoop :
    ({} : Settings).custom = [] ∧
      ∃ j around, loopInLoop.Within j around ∧ j.label = 2 ∧ around.map Node.label = [1, 0] := by
  let atoms := (Doc.ofExpr {} loopInLoop).atoms
  have hsplit : atoms = atoms.take 19 ++ .note (.written 2) :: atoms.drop 20 := by decide +kernel
  have hopen : Atoms.opened (atoms.take 19) = [1, 0] := by decide +kernel
  obtain ⟨j, around, hwithin, hlabel, hopened, -⟩ :=
    (Doc.jumps_ofExpr {} rfl loopInLoop).2 (atoms.take 19) 2 (atoms.drop 20) hsplit
  exact ⟨rfl, j, around, hwithin, hlabel, hopened.symm.trans hopen⟩

end TreeScribe
