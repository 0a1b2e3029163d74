import TreeScribe.Proofs.Render.Occurrences

/-! Which loops, switches and lambdas are open where a node is written.

A document notes where a loop, the cases of a switch or a lambda open and close. Whatever has been opened
and not closed before the end of a node are the constructs around that node in the tree, the innermost
first (`Doc.nests_ofExpr`). -/
namespace TreeScribe

/-! ### Nodes in constructs -/

/-- The children that a loop, a switch or a lambda encloses. -/
def Form.inside {α : Type} : Form α → List α
  | .loop loopBody _ _ => [loopBody]
  | .switch _ cases defaultBody _ => cases.flatMap (fun c => c.tests ++ [c.body]) ++ defaultBody.toList
  | .lambda _ _ lambdaBody _ _ => [lambdaBody]
  | _ => []

/-- The children that nothing encloses. -/
def Form.outside {α : Type} : Form α → List α
  | .switch subject _ _ _ => [subject]
  | .loop _ _ _ | .lambda _ _ _ _ _ => []
  | form => form.children

theorem Form.inside_subset {α : Type} (form : Form α) : form.inside ⊆ form.children := by
  cases form with
  | loop loopBody breakTarget continueTarget => exact List.Subset.refl _
  | «switch» subject cases defaultBody ty => exact List.subset_cons_self ..
  | lambda name parameters lambdaBody returnType ty => exact List.Subset.refl _
  | _ => exact List.nil_subset _

theorem Form.outside_subset {α : Type} (form : Form α) : form.outside ⊆ form.children := by
  cases form with
  | loop loopBody breakTarget continueTarget => exact List.nil_subset _
  | «switch» subject cases defaultBody ty =>
    exact List.cons_subset_cons subject (List.nil_subset _)
  | lambda name parameters lambdaBody returnType ty => exact List.nil_subset _
  | _ => exact List.Subset.refl _

/-- One node stands in the other, within these loops, switches and lambdas, the innermost first. -/
inductive Node.Within {ι : Type} : Node ι → Node ι → List (Node ι) → Prop where
  | here (n : Node ι) : Within n n []
  | outside {n c x : Node ι} {around : List (Node ι)} :
    c ∈ n.form.outside → Within c x around → Within n x around
  | inside {n c x : Node ι} {around : List (Node ι)} :
    c ∈ n.form.inside → Within c x around → Within n x (around ++ [n])

theorem Form.outside_of_encloses {α : Type} {form : Form α} (h : form.encloses = false) :
    form.outside = form.children := by
  cases form <;> first | rfl | cases h

/-- The node with this label stands within constructs with these labels. -/
def Node.Places {ι : Type} (n : Node ι) (l : ι) (labels : List ι) : Prop :=
  ∃ x around, Within n x around ∧ x.label = l ∧ labels = around.map label

namespace Node.Places

variable {ι : Type} {n c : Node ι} {l : ι} {labels : List ι}

theorem here (n : Node ι) : n.Places n.label [] := ⟨n, [], .here n, rfl, rfl⟩

theorem outside (hc : c ∈ n.form.outside) (h : c.Places l labels) : n.Places l labels := by
  obtain ⟨x, around, hwithin, hlabel, hlabels⟩ := h
  exact ⟨x, around, .outside hc hwithin, hlabel, hlabels⟩

theorem inside (hc : c ∈ n.form.inside) (h : c.Places l labels) : n.Places l (labels ++ [n.label]) := by
  obtain ⟨x, around, hwithin, hlabel, rfl⟩ := h
  exact ⟨x, around ++ [n], .inside hc hwithin, hlabel, by simp⟩

end Node.Places

/-! ### What is open -/

/-- What is open after an atom, the innermost first. -/
def Atom.nest (stack : List Nat) : Atom → List Nat
  | .note (.opens node) => node :: stack
  | .note (.closes _) => stack.tail
  | _ => stack

/-- The atom opens, closes and ends nothing. -/
def Atom.isLoose : Atom → Bool
  | .note (.opens _) | .note (.closes _) | .note (.written _) => false
  | _ => true

/-- The node that ends with an atom, and what is open there. -/
def Atom.ended (stack : List Nat) : Atom → List (Nat × List Nat)
  | .note (.written node) => [(node, stack)]
  | _ => []

namespace Atom

theorem nest_of_isLoose {a : Atom} (h : a.isLoose = true) (stack : List Nat) : a.nest stack = stack := by
  cases a with
  | note n => cases n <;> first | rfl | cases h
  | _ => rfl

theorem ended_of_isLoose {a : Atom} (h : a.isLoose = true) (stack : List Nat) : a.ended stack = [] := by
  cases a with
  | note n => cases n <;> first | rfl | cases h
  | _ => rfl

theorem isLoose_of_not_isMark {a : Atom} (h : a.isMark = false) : a.isLoose = true := by
  cases a with
  | note n => cases n <;> first | rfl | cases h
  | _ => rfl

end Atom

namespace Atoms

/-- The nodes that have been opened and not closed, the innermost first. -/
def openedFrom (stack : List Nat) (as : Atoms) : List Nat := as.foldl Atom.nest stack

def opened (as : Atoms) : List Nat := as.openedFrom []

/-- The nodes that end, each with what is open there. -/
def ends : List Nat → Atoms → List (Nat × List Nat)
  | _, [] => []
  | stack, a :: as => a.ended stack ++ ends (a.nest stack) as

theorem openedFrom_append (stack : List Nat) (as bs : Atoms) :
    openedFrom stack (as ++ bs) = openedFrom (openedFrom stack as) bs :=
  List.foldl_append

theorem ends_append (stack : List Nat) (as bs : Atoms) :
    ends stack (as ++ bs) = ends stack as ++ ends (openedFrom stack as) bs := by
  induction as generalizing stack with
  | nil => rfl
  | cons a as ih =>
    rw [List.cons_append, ends, ends, ih, List.append_assoc]
    rfl

/-- Marks tell all that opens, closes and ends. -/
theorem openedFrom_marks (stack : List Nat) (as : Atoms) : openedFrom stack as.marks = openedFrom stack as := by
  induction as generalizing stack with
  | nil => rfl
  | cons a as ih =>
    cases h : a.isMark with
    | true =>
      rw [marks, List.filter_cons_of_pos h]
      exact ih (a.nest stack)
    | false =>
      rw [marks, List.filter_cons_of_neg (by rw [h]; exact Bool.false_ne_true)]
      refine (ih stack).trans ?_
      rw [openedFrom, openedFrom, List.foldl_cons, Atom.nest_of_isLoose (Atom.isLoose_of_not_isMark h)]

theorem ends_marks (stack : List Nat) (as : Atoms) : ends stack as.marks = ends stack as := by
  induction as generalizing stack with
  | nil => rfl
  | cons a as ih =>
    cases h : a.isMark with
    | true =>
      rw [marks, List.filter_cons_of_pos h, ends, ends]
      exact congrArg (a.ended stack ++ ·) (ih (a.nest stack))
    | false =>
      have hloose := Atom.isLoose_of_not_isMark h
      rw [marks, List.filter_cons_of_neg (by rw [h]; exact Bool.false_ne_true), ends,
        Atom.ended_of_isLoose hloose, Atom.nest_of_isLoose hloose]
      exact ih stack

end Atoms

open Atoms

/-- All that is opened is closed, and where a node ends, it stands within what is open. -/
structure Nests (P : Nat → List Nat → Prop) (as : Atoms) : Prop where
  closed : ∀ stack, openedFrom stack as = stack
  ended : ∀ stack, ∀ found ∈ ends stack as, ∃ around, P found.1 around ∧ found.2 = around ++ stack

namespace Nests

variable {P Q : Nat → List Nat → Prop} {as bs : Atoms}

theorem nil : Nests P [] := ⟨fun _ => rfl, fun _ _ h => nomatch h⟩

theorem append (has : Nests P as) (hbs : Nests P bs) : Nests P (as ++ bs) := by
  constructor
  · intro stack
    rw [openedFrom_append, has.closed, hbs.closed]
  · intro stack found hfound
    rw [ends_append, has.closed, List.mem_append] at hfound
    exact hfound.elim (has.ended stack found) (hbs.ended stack found)

theorem loose (h : ∀ a ∈ as, a.isLoose = true) : Nests P as := by
  induction as with
  | nil => exact nil
  | cons a as ih =>
    have ha := h a (List.mem_cons_self ..)
    have hone : Nests P [a] := by
      refine ⟨Atom.nest_of_isLoose ha, fun stack found hfound => ?_⟩
      rw [ends, Atom.ended_of_isLoose ha] at hfound
      cases hfound
    exact hone.append (ih fun b hb => h b (List.mem_cons_of_mem _ hb))

theorem written {node : Nat} (h : P node []) : Nests P [.note (.written node)] := by
  refine ⟨fun _ => rfl, fun stack found hfound => ?_⟩
  obtain rfl := List.mem_singleton.mp hfound
  exact ⟨[], h, rfl⟩

theorem mono (h : Nests P as) (hPQ : ∀ l around, P l around → Q l around) : Nests Q as :=
  ⟨h.closed, fun stack found hfound =>
    (h.ended stack found hfound).imp fun around ⟨hP, hopen⟩ => ⟨hPQ found.1 around hP, hopen⟩⟩

/-- What is enclosed stands within one construct more. -/
theorem enclosed (h : Nests P as) {node : Nat} (hPQ : ∀ l around, P l around → Q l (around ++ [node])) :
    Nests Q (Atoms.enclosed node as) := by
  have hclosed (stack : List Nat) : openedFrom (node :: stack) as = node :: stack := h.closed _
  constructor
  · intro stack
    rw [Atoms.enclosed, openedFrom_append, openedFrom_append]
    show (openedFrom (node :: stack) as).tail = stack
    rw [hclosed]
    rfl
  · intro stack found hfound
    rw [Atoms.enclosed, ends_append, ends_append, List.mem_append, List.mem_append] at hfound
    rcases hfound with (hopens | hinner) | hcloses
    · cases hopens
    · obtain ⟨around, hP, hopen⟩ := h.ended (node :: stack) found hinner
      refine ⟨around ++ [node], hPQ _ _ hP, ?_⟩
      rw [hopen, List.append_assoc]
      rfl
    · cases hcloses

theorem of_marks (h : Nests P as.marks) : Nests P as :=
  ⟨fun stack => (openedFrom_marks stack as).symm.trans (h.closed stack), fun stack found hfound =>
    h.ended stack found ((ends_marks stack as).symm ▸ hfound)⟩

/-- Where a node ends, it stands within what has been opened. -/
theorem opened {before after : Atoms} {l : Nat} (h : Nests P (before ++ .note (.written l) :: after)) :
    P l before.opened := by
  have hmem : (l, before.opened) ∈ ends [] (before ++ .note (.written l) :: after) := by
    rw [ends_append]
    exact List.mem_append_right _ (List.mem_cons_self ..)
  obtain ⟨around, hP, heq⟩ := h.ended [] _ hmem
  rw [List.append_nil] at heq
  obtain rfl : before.opened = around := heq
  exact hP

end Nests

/-! ### Arrangements of constructs -/

namespace Arrangement

/-- A loop, a switch or a lambda writes what it encloses between its edges. -/
theorem exists_enclosed (env : Env) (node : Nat) {form : Form Expr} (h : form.encloses = true) (mode : Mode) :
    ∃ lead inner trail, (ofForm env node form mode = [] ∨
        ofForm env node form mode = lead ++ enclosed node inner ++ trail) ∧
      children lead ⊆ form.outside ∧ children inner ⊆ form.inside ∧ children trail = [] ∧
      ∀ p ∈ special (lead ++ inner ++ trail), ∃ t, p = .note (.label t) := by
  have hnone {steps : List Step} (h : special steps = []) : ∀ p ∈ special steps, ∃ t, p = .note (.label t) := by
    rw [h]
    exact fun p hp => nomatch hp
  cases form with
  | loop loopBody breakTarget continueTarget =>
    refine ⟨[], [body false loopBody], landing env breakTarget, ?_, List.nil_subset _,
      List.Subset.refl _, children_landing env breakTarget, ?_⟩
    · cases mode with
      | inPosition position => cases position <;> exact .inr rfl
      | body returns => cases returns <;> exact .inr rfl
      | chained returns => exact .inr rfl
      | landing returns => exact .inr rfl
      | elements => exact .inl rfl
    · intro p hp
      rw [special_append] at hp
      obtain ⟨t, -, rfl⟩ := special_landing env breakTarget p hp
      exact ⟨t, rfl⟩
  | lambda name parameters lambdaBody returnType ty =>
    refine ⟨[], [if lambdaBody.rendersAsStatements then body (!returnType.isVoid) lambdaBody
        else value lambdaBody], [], ?_, List.nil_subset _, ?_, rfl, ?_⟩
    · rw [List.nil_append, List.append_nil]
      cases mode with
      | inPosition position => cases position <;> exact .inr rfl
      | body returns => cases returns <;> exact .inr rfl
      | chained returns => exact .inr rfl
      | landing returns => exact .inr rfl
      | elements => exact .inl rfl
    · split <;> exact List.Subset.refl _
    · exact hnone (by split <;> rfl)
  | switch subject cases defaultBody ty =>
    let inner (returns : Bool) : List Step :=
      cases.flatMap (fun c => values c.tests ++ [body returns c.body]) ++
        defaultBody.toList.map (body returns)
    have hinner (returns : Bool) : children (inner returns) ⊆
          (Form.switch subject cases defaultBody ty).inside ∧
        special ([value subject] ++ inner returns ++ []) = [] := by
      constructor
      · simp [inner, Form.inside, children_flatMap, children_bodies]
      · have hcases : special (cases.flatMap fun c => values c.tests ++ [body returns c.body]) = [] :=
          special_flatMap (fun c => by rw [special_append, special_values]; rfl) cases
        rw [List.append_nil, special_append, special_append, hcases, special_bodies]
        rfl
    have hsome (returns : Bool) (hform : ofForm env node (.switch subject cases defaultBody ty) mode =
        switch node subject cases defaultBody returns) :
        ∃ lead inner trail, (ofForm env node (.switch subject cases defaultBody ty) mode = [] ∨
            ofForm env node (.switch subject cases defaultBody ty) mode =
              lead ++ enclosed node inner ++ trail) ∧
          children lead ⊆ (Form.switch subject cases defaultBody ty).outside ∧
          children inner ⊆ (Form.switch subject cases defaultBody ty).inside ∧ children trail = [] ∧
          ∀ p ∈ special (lead ++ inner ++ trail), ∃ t, p = .note (.label t) := by
      refine ⟨[value subject], inner returns, [], .inr ?_, List.Subset.refl _, (hinner returns).1, rfl,
        hnone (hinner returns).2⟩
      rw [hform, List.append_nil]
      rfl
    cases mode with
    | inPosition position => cases position <;> exact hsome _ rfl
    | body returns => cases returns <;> exact hsome _ rfl
    | chained returns => exact hsome _ rfl
    | landing returns => exact hsome _ rfl
    | elements =>
      exact ⟨[], [], [], .inl rfl, List.nil_subset _, List.nil_subset _, rfl, hnone rfl⟩
  | _ => cases h

end Arrangement

/-! ### Nesting of what is made -/

theorem Step.gives_collect {make : Piece → Rendering Atoms} {Q : Atoms → Prop} {steps : List Step}
    (hnil : Q []) (happend : ∀ as bs, Q as → Q bs → Q (as ++ bs))
    (h : ∀ p ∈ steps.flatMap Step.pieces, Gives (make p) Q) : Gives (collect make steps) Q := by
  induction steps with
  | nil => exact .pure hnil
  | cons step steps ih =>
    have hrest := ih fun p hp => h p (List.mem_append_right _ hp)
    cases step with
    | one p =>
      refine (h p (List.mem_cons_self ..)).bind fun as has => hrest.bind fun bs hbs => .pure ?_
      exact happend _ _ has hbs
    | swapped p q =>
      refine (h q (List.mem_cons_of_mem _ (List.mem_cons_self ..))).bind fun second hsecond =>
        (h p (List.mem_cons_self ..)).bind fun first hfirst => hrest.bind fun as has => .pure ?_
      exact happend _ _ (happend _ _ hfirst hsecond) has

namespace Env

variable {env : Env} {P : Nat → List Nat → Prop}

/-- A piece that is neither an edge nor an end nests as its child does. -/
theorem nests_piece {p : Piece} (hchild : ∀ mode e, p = .child mode e →
      Gives ((env.renderer e).marks mode) (Nests P))
    (hnote : ∀ n, p = .note n → (Atom.note n).isLoose = true) : Gives (env.marksOfPiece p) (Nests P) := by
  have hdeclared {x : Rendering Atoms} (h : Gives x fun marks => ∀ a ∈ marks, ∃ slot, a = .declaration slot) :
      Gives x (Nests P) :=
    h.mono fun marks hmarks => .loose fun a ha => by
      obtain ⟨slot, rfl⟩ := hmarks a ha
      rfl
  cases p with
  | child mode e => exact hchild mode e rfl
  | output e => exact hdeclared (declared_output e)
  | assignment node left => exact hdeclared (declared_assignment node left)
  | mention node name =>
    refine .pure (.loose fun a ha => ?_)
    unfold Atoms.mention at ha
    split at ha
    · cases ha
    · obtain rfl := List.mem_singleton.mp ha
      rfl
  | note n =>
    refine .pure (.loose fun a ha => ?_)
    obtain rfl := List.mem_singleton.mp ha
    exact hnote n rfl

/-- Steps without edges and ends. -/
theorem nests_marksOf {steps : List Step} (hspecial : ∀ n, .note n ∈ Arrangement.special steps →
      (Atom.note n).isLoose = true)
    (hchildren : ∀ c ∈ Arrangement.children steps, ∀ mode, Gives ((env.renderer c).marks mode) (Nests P)) :
    Gives (env.marksOf steps) (Nests P) := by
  refine Step.gives_collect .nil (fun _ _ => .append) fun p hp => nests_piece ?_ ?_
  · rintro mode e rfl
    exact hchildren e (Arrangement.mem_children_of_piece hp) mode
  · rintro n rfl
    cases hplain : (Piece.note n).isPlain with
    | true => cases hplain
    | false => exact hspecial n (Arrangement.mem_special.mpr ⟨hp, hplain⟩)

theorem gives_append {first steps : List Step} {Q : Atoms → Prop}
    (happend : ∀ as bs, Q as → Q bs → Q (as ++ bs)) (hfirst : Gives (env.marksOf first) Q)
    (hsteps : Gives (env.marksOf steps) Q) : Gives (env.marksOf (first ++ steps)) Q := by
  rw [marksOf_append]
  exact hfirst.bind fun as has => hsteps.bind fun bs hbs => .pure (happend as bs has hbs)

theorem marksOf_enclosed (node : Nat) (steps : List Step) :
    env.marksOf (Arrangement.enclosed node steps) = Atoms.enclosed node <$> env.marksOf steps := by
  have hnote (n : Note) : env.marksOf [Arrangement.note n] = return Atoms.note n := by
    rw [Arrangement.note, marksOf_one]
    rfl
  have hsplit : Arrangement.enclosed node steps =
      [Arrangement.note (.opens node)] ++ steps ++ [Arrangement.note (.closes node)] :=
    rfl
  rw [hsplit, marksOf_append, marksOf_append, hnote, hnote]
  simp only [Atoms.enclosed, pure_bind, bind_assoc, map_eq_pure_bind]

section Form

variable {node : Nat} {form : Form Expr}
  (hchildren : ∀ c ∈ form.children, ∀ mode, Gives ((env.renderer c).marks mode) (Nests c.Places))
include hchildren

theorem nests_ofForm (mode : Mode) :
    Gives (env.marksOf (Arrangement.ofForm env node form mode)) (Nests (Node.mk node form).Places) := by
  cases hencloses : form.encloses with
  | false =>
    refine nests_marksOf (fun n hn => ?_) fun c hc mode' => ?_
    · obtain ⟨_, _, _, _, _, _, h⟩ | ⟨_, _, h, _⟩ | ⟨h, -⟩ | ⟨_, -, h⟩ :=
        Arrangement.special_ofForm env node form mode _ hn
      · cases h
      · cases h
      · rw [hencloses] at h
        cases h
      · cases h
        rfl
    · have hmem := Arrangement.children_ofForm env node form mode hc
      refine (hchildren c hmem mode').mono fun marks h => h.mono fun l around => ?_
      exact .outside (n := .mk node form) (Form.outside_of_encloses hencloses ▸ hmem)
  | true =>
    obtain ⟨lead, inner, trail, harranged, hlead, hinner, htrail, hspecial⟩ :=
      Arrangement.exists_enclosed env node hencloses mode
    have hloose {steps : List Step}
        (h : Arrangement.special steps ⊆ Arrangement.special (lead ++ inner ++ trail)) (n : Note)
        (hn : .note n ∈ Arrangement.special steps) : (Atom.note n).isLoose = true := by
      obtain ⟨t, ht⟩ := hspecial _ (h hn)
      cases ht
      rfl
    rw [Arrangement.special_append, Arrangement.special_append] at hloose
    rcases harranged with hnothing | harranged
    · rw [hnothing]
      exact .pure .nil
    · rw [harranged]
      refine gives_append (fun _ _ => .append) (gives_append (fun _ _ => .append) ?_ ?_) ?_
      · refine nests_marksOf (hloose fun p hp => by simp [hp]) fun c hc mode' => ?_
        refine (hchildren c (form.outside_subset (hlead hc)) mode').mono fun marks h => ?_
        exact h.mono fun l around => .outside (n := .mk node form) (hlead hc)
      · rw [marksOf_enclosed]
        -- inside, everything stands within this node too
        let held (l : Nat) (around : List Nat) : Prop := ∃ c ∈ form.inside, c.Places l around
        have hheld : Gives (env.marksOf inner) (Nests held) := by
          refine nests_marksOf (hloose fun p hp => by simp [hp]) fun c hc mode' => ?_
          refine (hchildren c (form.inside_subset (hinner hc)) mode').mono fun marks h => ?_
          exact h.mono fun l around hplaces => ⟨c, hinner hc, hplaces⟩
        refine hheld.map fun marks h => h.enclosed fun l around => ?_
        rintro ⟨c, hc, hplaces⟩
        exact .inside (n := .mk node form) hc hplaces
      · refine nests_marksOf (hloose fun p hp => by simp [hp]) fun c hc => ?_
        rw [htrail] at hc
        cases hc

theorem nests_ofNode (mode : Mode) :
    Gives (env.marksOf (Arrangement.ofNode env node form mode)) (Nests (Node.mk node form).Places) := by
  refine gives_append (fun _ _ => .append) (nests_ofForm hchildren mode) ?_
  unfold Arrangement.ended
  split
  · rw [Arrangement.note, marksOf_one]
    exact .pure (.written (.here (.mk node form)))
  · exact .pure .nil

end Form

/-- **Where a node ends, exactly the constructs around it are open.** -/
theorem nests_renderer (hcustom : env.settings.custom = []) (e : Expr) (mode : Mode) :
    Gives ((env.renderer e).marks mode) (Nests e.Places) := by
  induction e using Node.induction generalizing mode with
  | h node form ih =>
    rw [marks_renderer hcustom]
    exact nests_ofNode (fun c hc mode => ih c hc mode) mode

end Env

theorem Doc.nests_ofExpr (settings : Settings) (hcustom : settings.custom = []) (e : Expr) :
    Nests e.Places (Doc.ofExpr settings e).atoms := by
  have hroot : Gives (((Env.ofExpr settings e).renderer e).marks (Env.rootMode e)) (Nests e.Places) :=
    Env.nests_renderer hcustom e (Env.rootMode e)
  rw [← Env.marks_root] at hroot
  exact .of_marks (hroot [])

end TreeScribe
