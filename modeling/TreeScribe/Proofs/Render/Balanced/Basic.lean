import TreeScribe.Proofs.Render.Operand
import TreeScribe.Proofs.Tree.Texts

/-! Renderers that close all brackets, where nothing in a tree or its environment has brackets in its name. -/
namespace TreeScribe

open Render Atoms

/-- Nothing that rendering refers to, apart from the tree, has brackets in its names. -/
structure Env.IsPlain (env : Env) : Prop where
  custom : env.settings.custom = []
  namer : env.settings.typeNames.NamesPlainly
  declared : ∀ node, ∀ key ∈ env.analysis.blockDeclarations node, AllPlain key.texts
  calls : ∀ c ∈ env.calls, AllPlain (c.2.name :: c.2.arguments.map (·.1))

/-- The brackets in all that a renderer makes are closed. -/
structure BalancedRenderer (r : Renderer) : Prop where
  inPosition : ∀ p, Gives (r.inPosition p) Doc.IsBalanced
  body : ∀ returns, Gives (r.body returns) Doc.IsBalanced
  chained : ∀ returns, Gives (r.chained returns) Doc.IsBalanced
  landing : ∀ returns, Gives (r.landing returns) Doc.IsBalanced
  elements : Gives r.elements fun ds => ∀ d ∈ ds, d.IsBalanced

namespace Render

/-- The brackets in all that is made of a child are closed, and it has none in its names. -/
structure BalancedChild (c : Child) : Prop extends BalancedRenderer c.2 where
  texts : AllPlain c.1.form.texts

theorem BalancedChild.ty {c : Child} (h : BalancedChild c) : AllPlain c.1.ty.texts :=
  Form.allPlain_ty h.texts

theorem balanced_value {c : Child} (h : BalancedChild c) : Gives (value c) Doc.IsBalanced := h.inPosition _

theorem balanced_values {cs : List Child} (h : ∀ c ∈ cs, BalancedChild c) :
    Gives (values cs) fun ds => ∀ d ∈ ds, d.IsBalanced :=
  .mapM fun c hc => balanced_value (h c hc)

theorem balanced_operand {c : Child} (h : BalancedChild c) (level : Level) :
    Gives (operand c level) Doc.IsBalanced := by
  refine (balanced_value h).bind fun d hd => .pure ?_
  split
  · exact hd.parenthesized
  · exact hd

variable {env : Env} (henv : env.IsPlain)

include henv

@[grind ←] theorem balanced_typeName {t : TypeRef} (h : AllPlain t.texts) : Balanced (env.typeName t) :=
  .typeName henv.namer h

end Render

end TreeScribe
