import TreeScribe.Proofs.Render.Pieces

/-! Where a variable is declared, as against where it is mentioned.

A variable that is declared by an output argument is declared by the first of its output arguments
to be made. The places of a tree are its output arguments and mentions in the order of the text, each
with the moment at which it is made; they follow from the arrangement of the nodes alone. The text
declares the variable before it mentions it exactly if the output argument that is made first is also
written before every mention (`declaresFirst_iff`). -/
namespace TreeScribe

theorem Step.collect_congr {m : Type → Type} [Monad m] {α : Type} {make make' : Piece → m (List α)}
    {steps : List Step} (h : ∀ p ∈ steps.flatMap Step.pieces, make p = make' p) :
    collect make steps = collect make' steps := by
  induction steps with
  | nil => rfl
  | cons step steps ih =>
    have hsteps := ih fun p hp => h p (List.mem_append_right _ hp)
    cases step with
    | one p => rw [collect, collect, h p (by simp [pieces]), hsteps]
    | swapped p q =>
      rw [collect, collect, h p (by simp [pieces]), h q (by simp [pieces]), hsteps]

/-! ### Occurrences -/

/-- A place of the text that concerns variables. -/
inductive Occurrence where
  /-- An output argument, with what it writes to. It can declare nothing but a variable. -/
  | output (slot : Slot) (isVariable : Bool)
  | mention (node : Nat)
deriving DecidableEq

/-- Occurrences in the order of the text, each with the moment at which it is made. -/
abbrev Occurrences := List (Nat × Occurrence)

def Occurrence.make (occurrence : Occurrence) : StateM Nat Occurrences := do
  let now ← get
  set (now + 1)
  return [(now, occurrence)]

namespace Env

variable (env : Env)

def occurrencesOfPiece (child : Expr → Mode → StateM Nat Occurrences) : Piece → StateM Nat Occurrences
  | .child mode e => child e mode
  | .output e =>
    match env.analysis.target? e.label with
    | some slot => (Occurrence.output slot e.asParameter?.isSome).make
    | none => return []
  | .assignment _ _ => return []
  | .mention node name => if name.isEmpty then return [] else (Occurrence.mention node).make
  | .note _ => return []

/-- The places of a tree that is asked for in some way. -/
def occurrences : Expr → Mode → StateM Nat Occurrences
  | .mk node form, mode =>
    -- the pieces are made of children, so nothing is left out here
    let child (e : Expr) (mode : Mode) : StateM Nat Occurrences :=
      if _h : e.size < (Node.mk node form).size then occurrences e mode else return []
    Step.collect (env.occurrencesOfPiece child) (Arrangement.ofNode env node form mode)
termination_by e => e.size

theorem occurrences_mk (node : Nat) (form : Form Expr) (mode : Mode) :
    env.occurrences (.mk node form) mode =
      Step.collect (env.occurrencesOfPiece env.occurrences) (Arrangement.ofNode env node form mode) := by
  rw [occurrences]
  refine Step.collect_congr fun p hp => ?_
  cases p with
  | child mode' e =>
    have he := Arrangement.children_ofNode env node form mode (Arrangement.mem_children_of_piece hp)
    exact dif_pos (Node.size_lt_of_mem he)
  | _ => rfl

end Env

/-! ### Following one variable -/

/-- A variable: where it lives, and the nodes that mention it. -/
structure Watched where
  slot : Slot
  mentions : List Nat

/-- The document declares the variable, and mentions it nowhere before. -/
def Doc.DeclaresFirst (d : Doc) (v : Watched) : Prop :=
  ∃ before after, d.atoms = before ++ .declaration v.slot :: after ∧
    ∀ node name, .mention node name ∈ before → node ∉ v.mentions

namespace Watched

variable (v : Watched)

def isClaim : Occurrence → Bool
  | .output slot _ => slot == v.slot
  | .mention _ => false

/-- The output argument of the variable that is made first is written before every mention. -/
def InOrder (os : Occurrences) : Prop :=
  ∃ before moment after, os = before ++ (moment, .output v.slot true) :: after ∧
    (∀ o ∈ os, v.isClaim o.2 → moment ≤ o.1) ∧
    ∀ o ∈ before, ∀ node, o.2 = .mention node → node ∉ v.mentions

/-- What an atom tells about the variable: whether it is declared or mentioned. -/
def told? : Atom → Option Bool
  | .declaration slot => if slot = v.slot then some true else none
  | .mention node _ => if node ∈ v.mentions then some false else none
  | _ => none

/-- Nothing claims the variable before this moment. -/
def isFree (os : Occurrences) (moment : Nat) : Bool :=
  os.all fun o => !v.isClaim o.2 || moment ≤ o.1

/-- What is written at an occurrence tells the same, if the variable is free at that moment. -/
def toldAt? (isFree : Nat → Bool) : Nat × Occurrence → Option Bool
  | (moment, .output slot isVariable) =>
    if slot = v.slot ∧ isVariable ∧ isFree moment then some true else none
  | (_, .mention node) => if node ∈ v.mentions then some false else none

end Watched

/-- Whatever comes before the first `true` is not `false`. -/
theorem findSome?_eq_true_iff {α : Type} {f : α → Option Bool} {as : List α} :
    as.findSome? f = some true ↔
      ∃ before a after, as = before ++ a :: after ∧ f a = some true ∧ ∀ x ∈ before, f x ≠ some false := by
  constructor
  · intro h
    obtain ⟨before, a, after, has, ha, hbefore⟩ := List.findSome?_eq_some_iff.mp h
    exact ⟨before, a, after, has, ha, fun x hx => by simp [hbefore x hx]⟩
  · rintro ⟨before, a, after, rfl, ha, hbefore⟩
    rw [List.findSome?_append]
    cases hfirst : before.findSome? f with
    | none => rw [Option.none_or, List.findSome?_cons, ha]
    | some b =>
      obtain ⟨x, hx, hfx⟩ := List.exists_of_findSome?_eq_some hfirst
      cases b with
      | true => rfl
      | false => exact absurd hfx (hbefore x hx)

namespace Watched

variable {v : Watched}

theorem told?_eq_true_iff {a : Atom} : v.told? a = some true ↔ a = .declaration v.slot := by
  cases a <;> simp [told?]

theorem told?_eq_false_iff {a : Atom} :
    v.told? a = some false ↔ ∃ node name, a = .mention node name ∧ node ∈ v.mentions := by
  cases a <;> simp [told?]

theorem toldAt?_eq_true_iff {isFree : Nat → Bool} {o : Nat × Occurrence} :
    v.toldAt? isFree o = some true ↔ o.2 = .output v.slot true ∧ isFree o.1 := by
  obtain ⟨moment, occurrence⟩ := o
  cases occurrence <;> simp [toldAt?, and_assoc]

theorem toldAt?_eq_false_iff {isFree : Nat → Bool} {o : Nat × Occurrence} :
    v.toldAt? isFree o = some false ↔ ∃ node, o.2 = .mention node ∧ node ∈ v.mentions := by
  obtain ⟨moment, occurrence⟩ := o
  cases occurrence <;> simp [toldAt?]

theorem isFree_iff {os : Occurrences} {moment : Nat} :
    v.isFree os moment ↔ ∀ o ∈ os, v.isClaim o.2 → moment ≤ o.1 := by
  simp only [isFree, List.all_eq_true, Bool.or_eq_true, Bool.not_eq_true', decide_eq_true_eq]
  refine forall₂_congr fun o _ => ?_
  cases v.isClaim o.2 <;> simp

theorem declaresFirst_iff_told {d : Doc} :
    d.DeclaresFirst v ↔ d.marks.findSome? v.told? = some true := by
  have hmark (a : Atom) : (if a.isMark then v.told? a else none) = v.told? a := by
    cases a with
    | note n => cases n <;> rfl
    | _ => rfl
  have hmarks : d.marks.findSome? v.told? = d.atoms.findSome? v.told? := by
    rw [← List.head?_filterMap, Doc.marks, Atoms.marks, List.filterMap_filter]
    simp only [hmark]
    exact List.head?_filterMap
  rw [hmarks, findSome?_eq_true_iff]
  constructor
  · rintro ⟨before, after, hatoms, hbefore⟩
    refine ⟨before, _, after, hatoms, told?_eq_true_iff.mpr rfl, fun a ha hfalse => ?_⟩
    obtain ⟨node, name, rfl, hnode⟩ := told?_eq_false_iff.mp hfalse
    exact hbefore node name ha hnode
  · rintro ⟨before, a, after, hatoms, ha, hbefore⟩
    obtain rfl := told?_eq_true_iff.mp ha
    exact ⟨before, after, hatoms, fun node name hmem hnode =>
      hbefore _ hmem (told?_eq_false_iff.mpr ⟨node, name, rfl, hnode⟩)⟩

theorem inOrder_iff_told {os : Occurrences} :
    v.InOrder os ↔ os.findSome? (v.toldAt? (v.isFree os)) = some true := by
  rw [findSome?_eq_true_iff]
  constructor
  · rintro ⟨before, moment, after, hos, hfree, hbefore⟩
    refine ⟨before, _, after, hos, toldAt?_eq_true_iff.mpr ⟨rfl, isFree_iff.mpr hfree⟩,
      fun o ho hfalse => ?_⟩
    obtain ⟨node, hmention, hnode⟩ := toldAt?_eq_false_iff.mp hfalse
    exact hbefore o ho node hmention hnode
  · rintro ⟨before, ⟨moment, occurrence⟩, after, hos, htold, hbefore⟩
    obtain ⟨rfl, hfree⟩ := toldAt?_eq_true_iff.mp htold
    exact ⟨before, moment, after, hos, isFree_iff.mp hfree, fun o ho node hmention hnode =>
      hbefore o ho (toldAt?_eq_false_iff.mpr ⟨node, hmention, hnode⟩)⟩

instance (os : Occurrences) : Decidable (v.InOrder os) := decidable_of_iff _ inOrder_iff_told.symm

/-- What has been written agrees with the occurrences: they tell the same about the variable, and
it has been declared if it was before or if one of them claims it. -/
structure Agrees (v : Watched) (declared : List Slot) (now : Nat) (written : List Atom × List Slot)
    (made : Occurrences × Nat) : Prop where
  le : now ≤ made.2
  moments : ∀ o ∈ made.1, now ≤ o.1 ∧ o.1 < made.2
  told : written.1.filterMap v.told? =
    made.1.filterMap (v.toldAt? fun moment => v.slot ∉ declared ∧ v.isFree made.1 moment)
  declared : v.slot ∈ written.2 ↔ v.slot ∈ declared ∨ ∃ o ∈ made.1, v.isClaim o.2

section Two

variable {declared : List Slot} {now : Nat} {first second : List Atom × List Slot}
  {early late : Occurrences × Nat}

theorem toldAt?_congr {isFree isFree' : Nat → Bool} {o : Nat × Occurrence}
    (h : v.isClaim o.2 → isFree o.1 = isFree' o.1) : v.toldAt? isFree o = v.toldAt? isFree' o := by
  obtain ⟨moment, occurrence⟩ := o
  cases occurrence with
  | mention node => rfl
  | output slot isVariable =>
    by_cases hslot : slot = v.slot
    · have hfree : isFree moment = isFree' moment := h (by simp [isClaim, hslot])
      simp only [toldAt?, hfree]
    · simp only [toldAt?, hslot, false_and]

/-- Of what is made in two goes, the occurrences of the first tell the same as on their own: the
others come later. -/
theorem told_early (hfirst : Agrees v declared now first early)
    (hsecond : Agrees v first.2 early.2 second late) {both : Occurrences}
    (hboth : ∀ moment, v.isFree both moment = (v.isFree early.1 moment && v.isFree late.1 moment)) :
    first.1.filterMap v.told? =
      early.1.filterMap (v.toldAt? fun moment => v.slot ∉ declared ∧ v.isFree both moment) := by
  rw [hfirst.told]
  refine List.filterMap_congr fun o ho => toldAt?_congr fun _ => ?_
  have hlate : v.isFree late.1 o.1 := isFree_iff.mpr fun o' ho' _ => by
    have := (hfirst.moments o ho).2
    have := (hsecond.moments o' ho').1
    omega
  rw [hboth, hlate, Bool.and_true]

/-- Those of the second tell the same as after the first: the variable is free among them if nothing
made before claims it. -/
theorem told_late (hfirst : Agrees v declared now first early)
    (hsecond : Agrees v first.2 early.2 second late) {both : Occurrences}
    (hboth : ∀ moment, v.isFree both moment = (v.isFree early.1 moment && v.isFree late.1 moment)) :
    second.1.filterMap v.told? =
      late.1.filterMap (v.toldAt? fun moment => v.slot ∉ declared ∧ v.isFree both moment) := by
  rw [hsecond.told]
  refine List.filterMap_congr fun o ho => toldAt?_congr fun _ => ?_
  have hearly : v.isFree early.1 o.1 ↔ ¬∃ o' ∈ early.1, v.isClaim o'.2 := by
    rw [isFree_iff]
    constructor
    · rintro hfree ⟨o', ho', hclaim⟩
      have := hfree o' ho' hclaim
      have := (hfirst.moments o' ho').2
      have := (hsecond.moments o ho).1
      omega
    · intro hnone o' ho' hclaim
      exact absurd ⟨o', ho', hclaim⟩ hnone
  rw [hboth, decide_eq_decide, hfirst.declared, Bool.and_eq_true, hearly, not_or, and_assoc]

theorem isFree_append {os os' : Occurrences} {moment : Nat} :
    v.isFree (os ++ os') moment = (v.isFree os moment && v.isFree os' moment) :=
  List.all_append

theorem isFree_append_comm {os os' : Occurrences} {moment : Nat} :
    v.isFree (os' ++ os) moment = (v.isFree os moment && v.isFree os' moment) := by
  rw [isFree_append, Bool.and_comm]

namespace Agrees

theorem moments_both (hfirst : Agrees v declared now first early)
    (hsecond : Agrees v first.2 early.2 second late) :
    now ≤ late.2 ∧ ∀ o, o ∈ early.1 ∨ o ∈ late.1 → now ≤ o.1 ∧ o.1 < late.2 := by
  have hearly := hfirst.le
  have hlate := hsecond.le
  refine ⟨hearly.trans hlate, fun o ho => ?_⟩
  rcases ho with ho | ho
  · have := hfirst.moments o ho
    omega
  · have := hsecond.moments o ho
    omega

theorem declared_both (hfirst : Agrees v declared now first early)
    (hsecond : Agrees v first.2 early.2 second late) :
    v.slot ∈ second.2 ↔
      v.slot ∈ declared ∨ ∃ o, (o ∈ early.1 ∨ o ∈ late.1) ∧ v.isClaim o.2 := by
  rw [hsecond.declared, hfirst.declared]
  simp only [or_and_right, exists_or, or_assoc]

/-- Two goes whose results are written in the order of the making. -/
theorem append (hfirst : Agrees v declared now first early)
    (hsecond : Agrees v first.2 early.2 second late) :
    Agrees v declared now (first.1 ++ second.1, second.2) (early.1 ++ late.1, late.2) where
  le := (moments_both hfirst hsecond).1
  moments o ho := (moments_both hfirst hsecond).2 o (List.mem_append.mp ho)
  told := by
    rw [List.filterMap_append, List.filterMap_append,
      told_early hfirst hsecond fun _ => isFree_append,
      told_late hfirst hsecond fun _ => isFree_append]
  declared := by
    simp only [List.mem_append]
    exact declared_both hfirst hsecond

/-- Two goes whose results are written in the opposite order. -/
theorem swapped (hfirst : Agrees v declared now first early)
    (hsecond : Agrees v first.2 early.2 second late) :
    Agrees v declared now (second.1 ++ first.1, second.2) (late.1 ++ early.1, late.2) where
  le := (moments_both hfirst hsecond).1
  moments o ho := (moments_both hfirst hsecond).2 o (List.mem_append.mp ho).symm
  told := by
    rw [List.filterMap_append, List.filterMap_append,
      told_early hfirst hsecond fun _ => isFree_append_comm,
      told_late hfirst hsecond fun _ => isFree_append_comm]
  declared := by
    simp only [List.mem_append, or_comm (a := _ ∈ late.1)]
    exact declared_both hfirst hsecond

/-- One occurrence. -/
theorem one {written : List Atom × List Slot} {o : Occurrence}
    (htold : written.1.filterMap v.told? =
      (v.toldAt? (fun _ => v.slot ∉ declared) (now, o)).toList)
    (hdeclared : v.slot ∈ written.2 ↔ v.slot ∈ declared ∨ v.isClaim o) :
    Agrees v declared now written ([(now, o)], now + 1) where
  le := Nat.le_succ now
  moments o' ho := by
    obtain rfl := List.mem_singleton.mp ho
    exact ⟨le_refl now, Nat.lt_succ_self now⟩
  told := by
    have hfree : v.isFree [(now, o)] now := isFree_iff.mpr fun o' ho _ => by
      rw [List.mem_singleton.mp ho]
    have hone : v.toldAt? (fun _ => v.slot ∉ declared) (now, o) =
        v.toldAt? (fun moment => v.slot ∉ declared ∧ v.isFree [(now, o)] moment) (now, o) :=
      toldAt?_congr fun _ => by simp [hfree]
    rw [htold, hone]
    exact (List.filterMap_cons ..).symm ▸ (by split <;> simp_all)
  declared := by simpa using hdeclared

/-- No occurrence. -/
theorem none {written : List Atom × List Slot} (htold : written.1.filterMap v.told? = [])
    (hdeclared : v.slot ∈ written.2 ↔ v.slot ∈ declared) :
    Agrees v declared now written ([], now) where
  le := le_refl now
  moments o ho := nomatch ho
  told := htold
  declared := by simpa using hdeclared

end Agrees

end Two

/-! ### Making pieces and following them -/

/-- Whatever has been declared before, what is made agrees with the occurrences. -/
def Follows (v : Watched) (x : Rendering (List Atom)) (y : StateM Nat Occurrences) : Prop :=
  ∀ declared now, Agrees v declared now (x.run declared) (y.run now)

namespace Follows

theorem collect {make : Piece → Rendering (List Atom)} {made : Piece → StateM Nat Occurrences}
    {steps : List Step} (h : ∀ p ∈ steps.flatMap Step.pieces, Follows v (make p) (made p)) :
    Follows v (Step.collect make steps) (Step.collect made steps) := by
  induction steps with
  | nil => exact fun _ _ => .none rfl Iff.rfl
  | cons step steps ih =>
    intro declared now
    have hsteps := ih fun p hp => h p (List.mem_append_right _ hp)
    cases step with
    | one p =>
      have hp := h p (by simp [Step.pieces])
      exact (hp declared now).append (hsteps _ _)
    | swapped p q =>
      have hp := h p (by simp [Step.pieces])
      have hq := h q (by simp [Step.pieces])
      exact ((hq declared now).swapped (hp _ _)).append (hsteps _ _)

end Follows

end Watched

/-! ### The pieces of a tree -/

theorem ScopeTree.run_claim (slot : Slot) (entitled : Bool) (written : List Slot) :
    (claim slot entitled).run written =
      if entitled && !written.contains slot then (true, slot :: written) else (false, written) := by
  show (if entitled && !written.contains slot then _ else _ : StateM (List Slot) Bool).run written = _
  split <;> rfl

namespace Env

variable {env : Env} {v : Watched}

/-- What is declared is marked once, whatever stands before the name. -/
theorem marks_declaring {slot : Slot} {as : Atoms} (h : as.marks = []) :
    (Atoms.declaring slot as).marks = [.declaration slot] := by
  rw [Atoms.declaring, Atoms.marks_append, h]
  rfl

theorem marks_typeName_space (t : TypeRef) : (env.typeName t ++ Atoms.space).marks = [] := by
  simp [typeName]

/-- The marks of what declares the variable of an output argument. -/
theorem run_marks_output (e : Expr) {slot : Slot} (h : env.analysis.target? e.label = some slot)
    (declared : List Slot) :
    (env.marksOfPiece (.output e)).run declared =
      if (env.analysis.scopes.info? slot).any (·.declaration == .inlineOutput) &&
          !declared.contains slot
      then (if e.asParameter?.isSome then [.declaration slot] else [], slot :: declared)
      else ([], declared) := by
  unfold marksOfPiece Render.outputAtoms ScopeTree.declaresOutput
  dsimp only
  rw [h]
  dsimp only
  rw [StateT.run_map, StateT.run_bind, ScopeTree.run_claim]
  split
  · cases e.asParameter? with
    | none => rfl
    | some w =>
      cases env.settings.choice .explicitTypes with
      | true => exact Prod.ext (marks_declaring (marks_typeName_space w.ty)) rfl
      | false => rfl
  · rfl

/-- The marks of what declares the variable of an assignment. -/
theorem run_marks_assignment (node : Nat) (left : Expr) {slot : Slot}
    (h : env.analysis.target? node = some slot) (declared : List Slot) :
    (env.marksOfPiece (.assignment node left)).run declared =
      if (env.analysis.scopes.info? slot).any (·.joined? == some node) && !declared.contains slot
      then ([.declaration slot], slot :: declared)
      else ([], declared) := by
  unfold marksOfPiece Render.declaringAtoms ScopeTree.declaresAssignment
  dsimp only
  rw [h]
  dsimp only
  rw [StateT.run_map, StateT.run_bind, ScopeTree.run_claim]
  split
  · cases env.analysis.isTypedJoin node with
    | true => exact Prod.ext (marks_declaring (marks_typeName_space left.ty)) rfl
    | false => rfl
  · rfl

/-- An output argument writes nothing but a declaration. -/
theorem declared_output (e : Expr) :
    Gives (env.marksOfPiece (.output e)) fun marks => ∀ a ∈ marks, ∃ slot, a = .declaration slot := by
  intro declared
  cases h : env.analysis.target? e.label with
  | none =>
    unfold marksOfPiece Render.outputAtoms
    dsimp only
    rw [h]
    exact fun a ha => nomatch ha
  | some slot =>
    rw [run_marks_output e h]
    split
    · split
      · exact fun a ha => ⟨slot, List.mem_singleton.mp ha⟩
      · exact fun a ha => nomatch ha
    · exact fun a ha => nomatch ha

/-- An assignment writes nothing but a declaration before its target. -/
theorem declared_assignment (node : Nat) (left : Expr) :
    Gives (env.marksOfPiece (.assignment node left)) fun marks =>
      ∀ a ∈ marks, ∃ slot, a = .declaration slot := by
  intro declared
  cases h : env.analysis.target? node with
  | none =>
    unfold marksOfPiece Render.declaringAtoms
    dsimp only
    rw [h]
    exact fun a ha => nomatch ha
  | some slot =>
    rw [run_marks_assignment node left h]
    split
    · exact fun a ha => ⟨slot, List.mem_singleton.mp ha⟩
    · exact fun a ha => nomatch ha

section Pieces

variable (hv : (env.analysis.scopes.info? v.slot).any (·.declaration == .inlineOutput))
include hv

theorem follows_output (e : Expr) :
    v.Follows (env.marksOfPiece (.output e)) (env.occurrencesOfPiece env.occurrences (.output e)) := by
  intro declared now
  cases h : env.analysis.target? e.label with
  | none =>
    unfold marksOfPiece occurrencesOfPiece Render.outputAtoms
    dsimp only
    rw [h]
    exact .none rfl Iff.rfl
  | some slot =>
    unfold occurrencesOfPiece
    dsimp only
    rw [run_marks_output e h, h]
    by_cases hslot : slot = v.slot
    · -- the argument declares the variable if it is still free
      subst hslot
      by_cases hfree : v.slot ∈ declared
      · refine .one ?_ ?_ <;> simp [Watched.toldAt?, hfree]
      · refine .one ?_ ?_
        · cases e.asParameter? <;> simp [Watched.told?, Watched.toldAt?, hv, hfree]
        · simp [Watched.isClaim, hv, hfree]
    · have hother : v.slot ≠ slot := Ne.symm hslot
      refine .one ?_ ?_
      · split
        · cases e.asParameter? <;> simp [Watched.told?, Watched.toldAt?, hslot]
        · simp [Watched.toldAt?, hslot]
      · split <;> simp [Watched.isClaim, hslot, hother]

/-- An assignment does not declare the variable: an output argument does. -/
theorem follows_assignment (node : Nat) (left : Expr) :
    v.Follows (env.marksOfPiece (.assignment node left))
      (env.occurrencesOfPiece env.occurrences (.assignment node left)) := by
  intro declared now
  cases h : env.analysis.target? node with
  | none =>
    unfold marksOfPiece occurrencesOfPiece Render.declaringAtoms
    dsimp only
    rw [h]
    exact .none rfl Iff.rfl
  | some slot =>
    rw [run_marks_assignment node left h]
    split
    next hjoined =>
      have hslot : slot ≠ v.slot := by
        rintro rfl
        simp only [Bool.and_eq_true, Option.any_eq_true, beq_iff_eq, VariableInfo.joined?] at hjoined hv
        obtain ⟨⟨info, hinfo, hcarrier⟩, -⟩ := hjoined
        obtain ⟨info', hinfo', houtput⟩ := hv
        obtain rfl := Option.some.inj (hinfo.symm.trans hinfo')
        simp [houtput] at hcarrier
      exact .none (by simp [Watched.told?, hslot]) (by simp [Ne.symm hslot])
    · exact .none rfl Iff.rfl

omit hv in
theorem follows_mention (node : Nat) (name : String) :
    v.Follows (env.marksOfPiece (.mention node name))
      (env.occurrencesOfPiece env.occurrences (.mention node name)) := by
  intro declared now
  unfold marksOfPiece occurrencesOfPiece Atoms.mention
  dsimp only
  split
  · exact .none rfl Iff.rfl
  · have hdeclared : v.slot ∈ declared ↔ v.slot ∈ declared ∨ v.isClaim (.mention node) := by
      simp [Watched.isClaim]
    refine .one ?_ hdeclared
    show [Atom.mention node name].filterMap v.told? = _
    by_cases hnode : node ∈ v.mentions <;> simp [Watched.told?, Watched.toldAt?, hnode]

variable (hcustom : env.settings.custom = [])
include hcustom

/-- What is made of a tree agrees with its occurrences, in every way it is asked for. -/
theorem follows_renderer (e : Expr) (mode : Mode) :
    v.Follows ((env.renderer e).marks mode) (env.occurrences e mode) := by
  induction e using Node.induction generalizing mode with
  | h node form ih =>
    rw [marks_renderer hcustom, occurrences_mk]
    refine Watched.Follows.collect fun p hp => ?_
    cases p with
    | child mode' e =>
      exact ih e (Arrangement.children_ofNode env node form mode
        (Arrangement.mem_children_of_piece hp)) mode'
    | output e => exact follows_output hv e
    | assignment node' left => exact follows_assignment hv node' left
    | mention node' name => exact follows_mention node' name
    | note n => exact fun _ _ => .none rfl Iff.rfl

end Pieces

/-- The way in which a tree on its own is asked for. -/
def rootMode (e : Expr) : Mode :=
  if e.rendersAsStatements then .body false else .inPosition .value

theorem marks_root (e : Expr) : Doc.marks <$> env.root e = (env.renderer e).marks (rootMode e) := by
  unfold root rootMode
  split <;> rfl

end Env

/-- The places of an expression on its own, in the order of the text. -/
def Occurrences.ofExpr (settings : Settings) (e : Expr) : Occurrences :=
  (((Env.ofExpr settings e).occurrences e (Env.rootMode e)).run 0).1

/-- **The text of an expression declares a variable before it mentions it exactly if the output
argument that is made first is written before every mention.** -/
theorem Doc.declaresFirst_iff (settings : Settings) (hcustom : settings.custom = []) (e : Expr)
    (v : Watched)
    (hv : ((Analysis.ofExpression settings e).scopes.info? v.slot).any
      (·.declaration == .inlineOutput)) :
    (Doc.ofExpr settings e).DeclaresFirst v ↔ v.InOrder (Occurrences.ofExpr settings e) := by
  have hfollows : v.Follows (((Env.ofExpr settings e).renderer e).marks (Env.rootMode e))
      ((Env.ofExpr settings e).occurrences e (Env.rootMode e)) :=
    @Env.follows_renderer (Env.ofExpr settings e) v hv hcustom e (Env.rootMode e)
  have hagrees := hfollows [] 0
  rw [← Env.marks_root] at hagrees
  have hfree : (fun moment => decide (v.slot ∉ ([] : List Slot) ∧
      v.isFree (Occurrences.ofExpr settings e) moment)) = v.isFree (Occurrences.ofExpr settings e) := by
    funext moment
    simp
  have htold : (Doc.ofExpr settings e).marks.filterMap v.told? =
      (Occurrences.ofExpr settings e).filterMap
        (v.toldAt? (v.isFree (Occurrences.ofExpr settings e))) :=
    hagrees.told.trans (by rw [← hfree]; rfl)
  rw [Watched.declaresFirst_iff_told, Watched.inOrder_iff_told, ← List.head?_filterMap, htold,
    List.head?_filterMap]

/-- `TryGet(out x)` is the test of a conditional, and is called again where it holds. -/
def askedTwice : Expr :=
  let x : Variable := { name := "x", ty := .int }
  let method : MethodInfo :=
    { name := "TryGet", declaring := .object, returnType := .bool, isStatic := true
      parameters := [{ name := "value", ty := .int, mode := .out }] }
  let ask (node : Nat) : Expr := .mk node (.call none method [.mk (node + 1) (.parameter x)])
  .mk 0 (.block [x] [.mk 1 (.conditional (ask 2) (ask 4) (.mk 6 (.default .void)) .void)] .void)

/-- The call in the branch is made first, and declares the variable that the test mentions. -/
theorem Doc.declaresFirst_askedTwice :
    let settings := ({} : Settings).withChoice .inlineOutputs
    let v : Watched := { slot := ⟨1, 0⟩, mentions := [3, 5] }
    settings.custom = [] ∧
      ((Analysis.ofExpression settings askedTwice).scopes.info? v.slot).any
        (·.declaration == .inlineOutput) ∧
      ¬(Doc.ofExpr settings askedTwice).DeclaresFirst v := by
  intro settings v
  have hv : ((Analysis.ofExpression settings askedTwice).scopes.info? v.slot).any
      (·.declaration == .inlineOutput) := by decide +kernel
  have horder : ¬v.InOrder (Occurrences.ofExpr settings askedTwice) := by decide +kernel
  exact ⟨rfl, hv, (Doc.declaresFirst_iff settings rfl askedTwice v hv).not.mpr horder⟩

end TreeScribe
