import TreeScribe.Proofs.Analysis.Meets
import TreeScribe.Proofs.Render.Occurrences

/-! Positions that fit the way in which a node is asked for, and visits that cover pieces. -/
namespace TreeScribe

open Move Moves

namespace Node

variable {ι : Type}

/-- A node that is not visited on its own account: a variable, or a default. -/
def isLeaf (n : Node ι) : Bool :=
  match n.form with
  | .parameter _ | .default _ => true
  | _ => false

theorem isLeaf_of_isEmpty {n : Node ι} (h : n.isEmpty = true) : n.isLeaf = true := by
  obtain ⟨l, f⟩ := n
  cases f <;> first | rfl | cases h

theorem isLeaf_of_asParameter? {n : Node ι} {v : Variable} (h : n.asParameter? = some v) :
    n.isLeaf = true := by
  obtain ⟨l, f⟩ := n
  cases f <;> first | rfl | cases h

theorem children_of_isLeaf {l : ι} {f : Form (Node ι)} (h : (Node.mk l f).isLeaf = true) :
    f.children = [] := by
  cases f <;> first | rfl | cases h

/-- A conditional of the void type. -/
def isVoidConditional (n : Node ι) : Bool :=
  match n.form with
  | .conditional _ _ _ ty => ty.isVoid
  | _ => false

/-- No conditional with a value is continued by one without. -/
def chainsFit : Node ι → Bool :=
  para fun _ f =>
    (match f with
      | .conditional _ _ ifFalse ty => ty.isVoid || !ifFalse.1.isVoidConditional
      | _ => true) && f.children.all (·.2)

theorem chainsFit_mk (l : ι) (f : Form (Node ι)) :
    chainsFit (.mk l f) = ((match f with
      | .conditional _ _ ifFalse ty => ty.isVoid || !ifFalse.isVoidConditional
      | _ => true) && f.children.all chainsFit) := by
  rw [chainsFit, para_mk, Form.children_map, List.all_map]
  cases f <;> rfl

theorem chainsFit_of_mem {l : ι} {f : Form (Node ι)} (h : chainsFit (.mk l f) = true)
    {c : Node ι} (hc : c ∈ f.children) : c.chainsFit = true := by
  rw [chainsFit_mk, Bool.and_eq_true] at h
  exact List.all_eq_true.mp h.2 c hc

theorem chainsFit_of_mem_nodes {n x : Node ι} (h : n.chainsFit = true) (hx : x ∈ n.nodes) :
    x.chainsFit = true :=
  forall_nodes (fun _ _ hn _ hc => chainsFit_of_mem hn hc) h x hx

end Node

/-! ### Positions that fit -/

/-- The position in which a node was visited fits the way in which it is asked for. Where it is not
strict, a node that was visited as a statement may be asked to give a value. -/
def Fits (strict : Prop) (position : Position) (e : Expr) : Mode → Prop
  | .inPosition .value => position = .value ∨ ¬strict ∧ position = .statement ∧ e.rendersAsStatements = false
  | .elements => Render.isElementArray e = true
  | .inPosition .statement | .body false => True
  | .inPosition .returning | .body true | .landing _ =>
    position = .returning ∨ ¬strict ∧ position = .statement
  | .chained returns =>
    ∃ test ifTrue ifFalse ty, e.form = .conditional test ifTrue ifFalse ty ∧
      (returns = true → Node.isTernary ifTrue ifFalse ty = false ∧
        (position = .returning ∧ ty.isVoid = false ∨ ¬strict ∧ position ≠ .value))

section Covers

variable {strict : Prop} {leads : Nat → Prop} {visits visits' : List (Expr × Position)}

/-- A child that is asked for was visited in a position that fits, and only some nodes are
assignments. -/
def Covered (strict : Prop) (leads : Nat → Prop) (visits : List (Expr × Position)) : Piece → Prop
  | .child mode c => c.isLeaf = true ∨ ∃ q, (c, q) ∈ visits ∧ Fits strict q c mode
  | .assignment node _ => leads node
  | _ => True

/-- Every piece is covered by the visits. -/
def Covers (strict : Prop) (leads : Nat → Prop) (visits : List (Expr × Position))
    (steps : List Step) : Prop :=
  ∀ p ∈ steps.flatMap Step.pieces, Covered strict leads visits p

namespace Covers

variable {steps first : List Step} {e : Expr}

theorem nil : Covers strict leads visits [] := fun _ h => nomatch h

theorem append (hfirst : Covers strict leads visits first) (hsteps : Covers strict leads visits steps) :
    Covers strict leads visits (first ++ steps) := by
  intro p h
  rw [List.flatMap_append, List.mem_append] at h
  exact h.elim (hfirst p) (hsteps p)

theorem cons {step : Step} (hstep : Covers strict leads visits [step]) (hsteps : Covers strict leads visits steps) :
    Covers strict leads visits (step :: steps) :=
  hstep.append hsteps

theorem one {p : Piece} (h : Covered strict leads visits p) : Covers strict leads visits [.one p] := by
  intro p' hp
  cases List.mem_singleton.mp hp
  exact h

theorem child {mode : Mode} (h : e.isLeaf = true ∨ ∃ q, (e, q) ∈ visits ∧ Fits strict q e mode) :
    Covers strict leads visits [.one (.child mode e)] :=
  one h

theorem lead {node : Nat} (h : leads node) :
    Covers strict leads visits [.one (.assignment node e)] :=
  one h

theorem output : Covers strict leads visits [.one (.output e)] := one trivial

theorem note (n : Note) : Covers strict leads visits [Arrangement.note n] := one trivial

theorem enclosed {node : Nat} (h : Covers strict leads visits steps) :
    Covers strict leads visits (Arrangement.enclosed node steps) :=
  ((note _).append h).append (note _)

theorem landing {env : Env} {target : Option Target} :
    Covers strict leads visits (Arrangement.landing env target) := by
  unfold Arrangement.landing
  cases target.filter env.analysis.isJumpTarget with
  | none => exact nil
  | some t => exact note _

theorem mono (h : Covers strict leads visits steps) (hvisits : visits ⊆ visits') :
    Covers strict leads visits' steps := by
  intro p hp
  have hcovered := h p hp
  cases p with
  | child mode c => exact hcovered.imp id fun ⟨q, hq, hfits⟩ => ⟨q, hvisits hq, hfits⟩
  | _ => exact hcovered

theorem value (h : e.isLeaf = true ∨ (e, .value) ∈ visits) :
    Covers strict leads visits [Arrangement.value e] :=
  child (h.imp id fun h => ⟨.value, h, .inl rfl⟩)

theorem flatMap {α : Type} {f : α → List Step} {as : List α}
    (h : ∀ a ∈ as, Covers strict leads visits (f a)) : Covers strict leads visits (as.flatMap f) := by
  induction as with
  | nil => exact nil
  | cons a as ih =>
    rw [List.flatMap_cons]
    exact (h a (List.mem_cons_self ..)).append (ih fun a' ha => h a' (List.mem_cons_of_mem _ ha))

theorem values {es : List Expr} (h : ∀ e ∈ es, e.isLeaf = true ∨ (e, .value) ∈ visits) :
    Covers strict leads visits (Arrangement.values es) := by
  rw [Arrangement.values, List.map_eq_flatMap]
  exact flatMap fun e he => value (h e he)

theorem values_of_visits (es : List Expr) :
    Covers strict leads (visitsAll (Moves.values es)) (Arrangement.values es) := by
  refine values fun e he => .inr ?_
  rw [visits_values]
  exact List.mem_map_of_mem he

/-- A body is visited in the position that its value asks for. -/
theorem body {returns : Bool} (h : (e, Position.ofBody returns) ∈ visits) :
    Covers strict leads visits [Arrangement.body returns e] := by
  refine child (.inr ⟨_, h, ?_⟩)
  cases returns with
  | true => exact .inl rfl
  | false => exact trivial

/-- Where no value is asked for, every position will do. -/
theorem statement {q : Position} (h : (e, q) ∈ visits) :
    Covers strict leads visits [Arrangement.body false e] :=
  child (.inr ⟨q, h, trivial⟩)

theorem swapped {p q : Piece} (hp : Covers strict leads visits [.one p]) (hq : Covers strict leads visits [.one q]) :
    Covers strict leads visits [.swapped p q] :=
  hp.append hq

end Covers

/-! ### Ways to fit -/

theorem fits_body {e : Expr} {returns : Bool} :
    Fits strict (Position.ofBody returns) e (.body returns) := by
  cases returns with
  | true => exact .inl rfl
  | false => exact trivial

/-- Where it is not strict, a body may be visited as a statement and asked for a value. -/
theorem fits_body_of_statement (hstrict : ¬strict) {e : Expr} {returns : Bool} :
    Fits strict .statement e (.body returns) := by
  cases returns with
  | true => exact .inr ⟨hstrict, rfl⟩
  | false => exact trivial

/-- A conditional that goes on after `else` with a value is no ternary. -/
theorem fits_chained {position : Position} {e : Expr} {returns : Bool}
    (h : Render.isChained e returns = true)
    (hposition : returns = true →
      position = .returning ∧ (e.isVoidConditional = false ∨ ¬strict) ∨
        ¬strict ∧ position = .statement) : Fits strict position e (.chained returns) := by
  unfold Render.isChained at h
  split at h
  next test ifTrue ifFalse ty hform =>
    refine ⟨test, ifTrue, ifFalse, ty, hform, fun hreturns => ⟨by simpa [hreturns] using h, ?_⟩⟩
    rcases hposition hreturns with ⟨rfl, hvoid | hstrict⟩ | ⟨hstrict, rfl⟩
    · exact .inl ⟨rfl, by simpa [Node.isVoidConditional, hform] using hvoid⟩
    · exact .inr ⟨hstrict, by decide⟩
    · exact .inr ⟨hstrict, by decide⟩
  · cases h

theorem fits_lastMode {last last' : Position} (h : last' = last ∨ ¬strict ∧ last' = .statement)
    (hlast : last ≠ .value) (e : Expr) (afterJump : Bool) :
    Fits strict last' e (DocEnding.lastMode last afterJump e) := by
  unfold DocEnding.lastMode
  cases last with
  | value => exact absurd rfl hlast
  | statement => exact trivial
  | returning => split <;> exact h

end Covers

end TreeScribe
