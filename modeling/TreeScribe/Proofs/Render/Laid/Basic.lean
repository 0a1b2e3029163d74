import TreeScribe.Proofs.Layout.Laid
import TreeScribe.Proofs.Render.Gives
import TreeScribe.Proofs.Render.Names

/-! Documents and renderers that are well laid and name only certain types. -/
namespace TreeScribe

open Render Atoms

variable {P : TypeRef → Prop}

/-- The atoms of a document are well laid. -/
abbrev Doc.IsLaid (P : TypeRef → Prop) (d : Doc) : Prop := Laid P d.atoms

abbrev Doc.IsWellLaid (d : Doc) : Prop := d.IsLaid fun _ => True

namespace Doc

@[grind ←] theorem IsLaid.parenthesized {d : Doc} (h : d.IsLaid P) : d.parenthesized.IsLaid P := Laid.parens h

@[grind ←] theorem IsLaid.terminated {d : Doc} (h : d.IsLaid P) : d.terminated.IsLaid P := by
  unfold Doc.terminated
  split
  · exact h
  · exact .append h (.text _)

@[grind ←] theorem IsLaid.braced {d : Doc} (h : d.IsLaid P) : d.braced.IsLaid P := by
  refine .bracketed _ _ (.append ?_ .newline)
  split
  · exact .nil
  · exact .indented (.append .newline h)

@[grind ←] theorem IsLaid.returned {d : Doc} (h : d.IsLaid P) : d.returned.IsLaid P :=
  .append (.append (.control _) .space) h

@[grind ←] theorem IsLaid.absent (kind : NodeKind) (ty : TypeRef) : (Doc.absent kind ty).IsLaid P := .nil

theorem IsLaid.noted {d : Doc} (h : d.IsLaid P) (node : Nat) : (d.noted node).IsLaid P := by
  unfold Doc.noted
  split
  · exact h
  · exact .append h (.flat rfl)

@[grind ←] theorem laid_separated (separator : String) {ds : List Doc} (h : ∀ d ∈ ds, d.IsLaid P) :
    Laid P (Render.separated separator ds) := by
  apply Laid.separated
  intro as ha
  obtain ⟨d, hd, rfl⟩ := List.mem_map.mp ha
  exact h d hd

end Doc

/-- All that a renderer makes is well laid. -/
structure LaidRenderer (P : TypeRef → Prop) (r : Renderer) : Prop where
  inPosition : ∀ p, Gives (r.inPosition p) (Doc.IsLaid P)
  body : ∀ returns, Gives (r.body returns) (Doc.IsLaid P)
  chained : ∀ returns, Gives (r.chained returns) (Doc.IsLaid P)
  landing : ∀ returns, Gives (r.landing returns) (Doc.IsLaid P)
  elements : Gives r.elements fun ds => ∀ d ∈ ds, d.IsLaid P

namespace Render

variable (env : Env)

@[grind ←] theorem laid_typeName {t : TypeRef} (h : P t) : Laid P (env.typeName t) := .typeName _ h

/-- All that is made of a child is well laid. -/
abbrev LaidChild (P : TypeRef → Prop) (c : Child) : Prop := LaidRenderer P c.2

abbrev WellLaidChild (c : Child) : Prop := LaidChild (fun _ => True) c

theorem gives_claim (slot : Slot) (may : Bool) :
    Gives (ScopeTree.claim slot may) fun declares => declares = true → may = true := by
  intro declared
  unfold ScopeTree.claim
  cases may with
  | true => exact fun _ => rfl
  | false => exact id

theorem laid_value {c : Child} (h : LaidChild P c) : Gives (value c) (Doc.IsLaid P) := h.inPosition _

theorem laid_values {cs : List Child} (h : ∀ c ∈ cs, LaidChild P c) :
    Gives (values cs) fun ds => ∀ d ∈ ds, d.IsLaid P :=
  .mapM fun c hc => laid_value (h c hc)

theorem laid_operand {c : Child} (h : LaidChild P c) (level : Level) :
    Gives (operand c level) (Doc.IsLaid P) := by
  refine (laid_value h).bind fun d hd => .pure ?_
  split
  · exact hd.parenthesized
  · exact hd

end Render

end TreeScribe
