import TreeScribe.Proofs.Tree.Induction
import TreeScribe.Render.Tree

/-! Trees under other labels.

Nothing that rendering reads off a tree depends on the labels: kind and type of a node, how tightly it
binds, and whether it can only be written as statements. -/
namespace TreeScribe

variable {α β ι κ μ : Type}

/-- A form is determined by what becomes of its children. -/
theorem Form.map_congr {g h : α → β} {x : Form α} (heq : ∀ c ∈ x.children, g c = h c) :
    x.map g = x.map h := by
  rw [← Form.map_attachWith g x heq, ← Form.map_attachWith h x heq]
  refine congrArg (Form.map · _) (funext fun c => ?_)
  exact c.2

theorem Form.kind_map (g : α → β) (x : Form α) : (x.map g).kind = x.kind := by
  cases x <;> rfl

theorem Form.ty_map (g : α → β) (x : Form α) : (x.map g).ty = x.ty := by
  cases x with
  | newArray elementType expressions bounds => simp [map, ty, arrayRank]
  | _ => rfl

theorem Form.isTransparent_map (g : α → β) (locals : List Variable) (es : List α) :
    Form.isTransparent locals (es.map g) = Form.isTransparent locals es := by
  simp [isTransparent]

namespace Node

/-- The tree with other labels. -/
def relabel (g : ι → κ) : Node ι → Node κ := fold fun l f => .mk (g l) f

variable (g : ι → κ)

@[simp] theorem relabel_mk (l : ι) (x : Form (Node ι)) :
    (mk l x).relabel g = .mk (g l) (x.map (relabel g)) := by
  rw [relabel, fold, para_mk, Form.map_map]
  rfl

@[simp] theorem label_relabel (n : Node ι) : (n.relabel g).label = g n.label := by
  obtain ⟨l, x⟩ := n
  rw [relabel_mk]
  rfl

theorem form_relabel (n : Node ι) : (n.relabel g).form = n.form.map (relabel g) := by
  obtain ⟨l, x⟩ := n
  rw [relabel_mk]
  rfl

theorem erase_eq_relabel (n : Node ι) : n.erase = n.relabel fun _ => () := rfl

theorem relabel_relabel (h : κ → μ) (n : Node ι) : (n.relabel g).relabel h = n.relabel (h ∘ g) := by
  induction n using Node.induction with
  | h l x ih =>
    rw [relabel_mk, relabel_mk, relabel_mk, Form.map_map]
    refine congrArg (mk (h (g l))) (Form.map_congr fun c hc => ?_)
    exact ih c hc

theorem relabel_id (n : Node ι) : n.relabel id = n := by
  induction n using Node.induction with
  | h l x ih =>
    rw [relabel_mk, Form.map_congr (h := id) ih, Form.map_id]
    rfl

@[simp] theorem kind_relabel (n : Node ι) : (n.relabel g).kind = n.kind := by
  rw [kind, form_relabel, Form.kind_map]
  rfl

@[simp] theorem ty_relabel (n : Node ι) : (n.relabel g).ty = n.ty := by
  rw [ty, form_relabel, Form.ty_map]
  rfl

@[simp] theorem asParameter?_relabel (n : Node ι) : (n.relabel g).asParameter? = n.asParameter? := by
  obtain ⟨l, x⟩ := n
  rw [relabel_mk]
  cases x <;> rfl

@[simp] theorem isEmpty_relabel (n : Node ι) : (n.relabel g).isEmpty = n.isEmpty := by
  obtain ⟨l, x⟩ := n
  rw [relabel_mk]
  cases x <;> rfl

@[simp] theorem isLambda_relabel (n : Node ι) : (n.relabel g).isLambda = n.isLambda := by
  obtain ⟨l, x⟩ := n
  rw [relabel_mk]
  cases x <;> rfl

@[simp] theorem isClosure_relabel (n : Node ι) : (n.relabel g).isClosure = n.isClosure := by
  obtain ⟨l, x⟩ := n
  rw [relabel_mk]
  cases x <;> rfl

@[simp] theorem rendersAsStatements_relabel (n : Node ι) :
    (n.relabel g).rendersAsStatements = n.rendersAsStatements := by
  induction n using Node.induction with
  | h l x ih =>
    rw [relabel_mk, rendersAsStatements_mk, rendersAsStatements_mk, Form.map_map]
    exact congrArg Form.isStatement (Form.map_congr ih)

@[simp] theorem isTernary_relabel (ifTrue ifFalse : Node ι) (ty : TypeRef) :
    isTernary (ifTrue.relabel g) (ifFalse.relabel g) ty = isTernary ifTrue ifFalse ty := by
  simp [isTernary]

theorem level_unary (l : ι) (op : UnaryOp) (operand : Option (Node ι)) (ty : TypeRef)
    (method : Option MethodInfo) :
    (mk l (.unary op operand ty method)).level =
      unaryLevel op (operand.map fun c => (c, c.level)) ty method := by
  rw [level, para_mk]
  rfl

@[simp] theorem level_relabel (n : Node ι) : (n.relabel g).level = n.level := by
  induction n using Node.induction with
  | h l x ih =>
    rw [relabel_mk]
    cases x with
    | unary op operand ty method =>
      rw [Form.map, level_unary, level_unary]
      cases operand with
      | none => rfl
      | some c =>
        have hc := ih c (List.mem_singleton_self c)
        cases op <;> simp [unaryLevel, hc]
    | _ =>
      rw [level, level, para_mk, para_mk]
      rfl

end Node

namespace Render

variable (g : Nat → Nat)

@[simp] theorem isLabel_relabel (e : Expr) : isLabel (e.relabel g) = isLabel e := by
  obtain ⟨l, x⟩ := e
  rw [Node.relabel_mk]
  cases x <;> rfl

@[simp] theorem isElementArray_relabel (e : Expr) : isElementArray (e.relabel g) = isElementArray e := by
  obtain ⟨l, x⟩ := e
  rw [Node.relabel_mk]
  cases x <;> rfl

@[simp] theorem isChained_relabel (e : Expr) (returns : Bool) :
    isChained (e.relabel g) returns = isChained e returns := by
  obtain ⟨l, x⟩ := e
  rw [Node.relabel_mk]
  cases x with
  | conditional test ifTrue ifFalse ty => simp [isChained, Node.form, Form.map]
  | _ => rfl

@[simp] theorem startsWithSign_relabel (isMinus : Bool) (e : Expr) :
    startsWithSign isMinus (e.relabel g) = startsWithSign isMinus e := by
  obtain ⟨l, x⟩ := e
  rw [Node.relabel_mk]
  cases x <;> rfl

theorem isNotReturned_map {α β : Type} (h : α → β) (x : Form α) :
    isNotReturned (x.map h) = isNotReturned x := by
  cases x with
  | newArray elementType expressions bounds =>
    exact congrArg TypeRef.isVoid (Form.ty_map h (.newArray elementType expressions bounds))
  | _ => rfl

end Render

end TreeScribe
