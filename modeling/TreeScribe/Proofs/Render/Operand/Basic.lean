import TreeScribe.Proofs.Render.Laid
import TreeScribe.Proofs.Render.Surface

/-! The operators that a child leaves outside all brackets. -/
namespace TreeScribe

open Render Atoms

/-! ### What parts show -/

/-- The levels that a part shows. -/
def Part.shown (s : Settings) : Part → Set Level
  | .sign level => {level}
  | .bare e => { level | Shows s e level }

@[simp] theorem Part.shown_sign (s : Settings) (level : Level) :
    (Part.sign level).shown s = {level} :=
  rfl

namespace Surface

/-- The levels that a surface shows. -/
def shown (s : Settings) (parts : Surface) : Set Level := { level | ∃ p ∈ parts, level ∈ p.shown s }

variable (s : Settings)

@[simp] theorem shown_nil : shown s [] = ∅ := by
  ext level
  simp [shown]

@[simp] theorem shown_cons (p : Part) (parts : Surface) :
    shown s (p :: parts) = p.shown s ∪ shown s parts := by
  ext level
  simp [shown]

@[simp] theorem shown_append (ps qs : Surface) : shown s (ps ++ qs) = shown s ps ∪ shown s qs := by
  induction ps with
  | nil => simp
  | cons p ps ih => simp [ih, Set.union_assoc]

theorem shown_bare_mk (node : Nat) (form : Form Expr) :
    (Part.bare (.mk node form)).shown s = shown s (form.surface s) := by
  ext level
  constructor
  · rintro (hmem | ⟨hmem, hshows⟩)
    · exact ⟨_, hmem, rfl⟩
    · exact ⟨_, hmem, hshows⟩
  · rintro ⟨p, hmem, hp⟩
    cases p with
    | sign l =>
      have hp : level = l := hp
      subst hp
      exact .sign hmem
    | bare e => exact .bare hmem hp

end Surface

/-- The document is well laid and has operators of these levels at its top. -/
structure Doc.Tops (d : Doc) (levels : Set Level) : Prop where
  laid : d.IsWellLaid
  top : Atoms.top d.atoms = levels

theorem Doc.Tops.parenthesized {d : Doc} {levels : Set Level} (h : d.Tops levels) :
    d.parenthesized.Tops ∅ :=
  ⟨h.laid.parenthesized, top_parens h.laid⟩

theorem Doc.IsLaid.top_braced {d : Doc} (h : d.IsLaid fun _ => True) : Atoms.top d.braced.atoms = ∅ := by
  refine top_bracketed (.append ?_ .newline) _ _
  split
  · exact .nil
  · exact .indented (.append .newline h)

theorem Doc.top_noted {d : Doc} (h : d.IsWellLaid) (node : Nat) :
    Atoms.top (d.noted node).atoms = Atoms.top d.atoms := by
  unfold Doc.noted
  split
  · rfl
  · rw [top_append h, top_note, Set.union_empty]

theorem Render.top_notedValue {α : Type} (env : Env) (node : Nat) (form : Form α) {d : Doc}
    (h : d.IsWellLaid) : Atoms.top (notedValue env node form d).atoms = Atoms.top d.atoms := by
  unfold notedValue
  split
  · rfl
  · exact Doc.top_noted h node

namespace Render

variable (env : Env)

/-- What is made of the child as a value has the operators of its surface at the top. -/
structure ShownChild (s : Settings) (c : Child) : Prop where
  laid : WellLaidChild c
  value : Gives (Render.value c) fun d => Atoms.top d.atoms = (Part.bare c.1).shown s
  /-- A conditional that follows an `else` is an `if` statement. -/
  chained : ∀ test ifTrue ifFalse ty, c.1.form = .conditional test ifTrue ifFalse ty →
    ∀ returns, Gives (c.2.chained returns) fun d => Atoms.top d.atoms = ∅

variable {s : Settings} {c : Child}

theorem tops_value (h : ShownChild s c) :
    Gives (value c) fun d => d.Tops ((Part.bare c.1).shown s) :=
  ((laid_value h.laid).and h.value).mono fun _ hd => ⟨hd.1, hd.2⟩

theorem tops_operand (h : ShownChild s c) (level : Level) :
    Gives (operand c level) fun d => d.Tops ((Surface.operand c.1 level).shown s) := by
  refine (tops_value h).bind fun d hd => .pure ?_
  unfold Surface.operand
  split
  · simpa using hd.parenthesized
  · simpa using hd

theorem tops_logicalOperand (op : BinaryOp) (h : ShownChild s c) :
    Gives (logicalOperand op c) fun d => d.Tops ((Surface.logicalOperand op c.1).shown s) := by
  obtain ⟨⟨node, form⟩, r⟩ := c
  cases form with
  | binary inner left right ty method =>
    dsimp only [logicalOperand, Surface.logicalOperand, Node.form]
    split
    · simpa using tops_value h
    · split
      · exact (tops_value h).bind fun d hd => .pure (by simpa using hd.parenthesized)
      · exact tops_operand h _
  | _ => exact tops_operand h _

end Render

end TreeScribe
