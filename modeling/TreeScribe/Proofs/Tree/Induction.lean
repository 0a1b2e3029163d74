import Mathlib.Algebra.GroupWithZero.Nat
import Mathlib.Algebra.Order.BigOperators.Group.List
import Mathlib.Algebra.Order.Group.Nat
import TreeScribe.Tree.Shape

/-! Induction over trees: what holds of a node whenever it holds of its children holds of every
node. -/
namespace TreeScribe

variable {α β γ ι : Type}

/-! ### Children of a mapped form -/

mutual

theorem Binding.children_map (f : α → β) :
    (b : Binding α) → (Binding.map f b).children = b.children.map f
  | .assignment _ _ => rfl
  | .nested _ bs => by
    simp only [Binding.map, Binding.children]
    exact Binding.childrenAll_map f bs
  | .list _ items => by
    simp only [Binding.map, Binding.children, List.flatMap_map, List.map_flatMap]
    rfl

theorem Binding.childrenAll_map (f : α → β) :
    (bs : List (Binding α)) →
      Binding.childrenAll (Binding.mapAll f bs) = (Binding.childrenAll bs).map f
  | [] => rfl
  | b :: bs => by
    simp only [Binding.mapAll, Binding.childrenAll, List.map_append]
    rw [Binding.children_map f b, Binding.childrenAll_map f bs]

end

theorem Form.children_map (f : α → β) (x : Form α) :
    (x.map f).children = x.children.map f := by
  cases x with
  | unary op operand ty method => cases operand <;> rfl
  | call receiver method arguments => cases receiver <;> simp [map, children]
  | member receiver info => cases receiver <;> rfl
  | memberInit creation bindings =>
    simp [map, children, Creation.map, Binding.childrenAll_map]
  | listInit creation items =>
    simp [map, children, Creation.map, ElementInit.map, List.flatMap_map, List.map_flatMap]
  | jump kind target value ty => cases value <;> rfl
  | label target value => cases value <;> rfl
  | switch value cases defaultBody ty =>
    cases defaultBody <;>
      simp [map, children, SwitchCase.map, List.flatMap_map, List.map_flatMap]
  | «try» body handlers cleanup fault ty =>
    have hhandlers : (handlers.map (·.map f)).flatMap (fun h => h.filter.toList ++ [h.body]) =
        (handlers.flatMap fun h => h.filter.toList ++ [h.body]).map f := by
      rw [List.flatMap_map, List.map_flatMap]
      congr 1
      funext h
      cases hf : h.filter <;> simp [Handler.map, hf]
    cases cleanup <;> cases fault <;> simp [map, children, hhandlers]
  | _ => simp [map, children, Creation.map]

theorem Form.mem_children_case {value : α} {cases : List (SwitchCase α)} {defaultBody : Option α}
    {ty : TypeRef} {k : SwitchCase α} (hk : k ∈ cases) {c : α} (hc : c ∈ k.tests ++ [k.body]) :
    c ∈ (Form.switch value cases defaultBody ty).children :=
  List.mem_append_left _ (List.mem_cons_of_mem _ (List.mem_flatMap.mpr ⟨k, hk, hc⟩))

theorem Form.mem_children_handler {body : α} {handlers : List (Handler α)}
    {cleanup fault : Option α} {ty : TypeRef} {k : Handler α} (hk : k ∈ handlers) {c : α}
    (hc : c ∈ k.filter.toList ++ [k.body]) :
    c ∈ (Form.try body handlers cleanup fault ty).children :=
  List.mem_append_left _
    (List.mem_append_left _ (List.mem_cons_of_mem _ (List.mem_flatMap.mpr ⟨k, hk, hc⟩)))

/-! ### Mapping twice and not at all -/

mutual

theorem Binding.map_map (f : α → β) (g : β → γ) :
    (b : Binding α) → Binding.map g (Binding.map f b) = Binding.map (g ∘ f) b
  | .assignment _ _ => rfl
  | .nested _ bs => by
    simp only [Binding.map]
    rw [Binding.mapAll_mapAll f g bs]
  | .list _ items => by
    simp [Binding.map, ElementInit.map]

theorem Binding.mapAll_mapAll (f : α → β) (g : β → γ) :
    (bs : List (Binding α)) →
      Binding.mapAll g (Binding.mapAll f bs) = Binding.mapAll (g ∘ f) bs
  | [] => rfl
  | b :: bs => by
    simp only [Binding.mapAll]
    rw [Binding.map_map f g b, Binding.mapAll_mapAll f g bs]

end

theorem Form.map_map (f : α → β) (g : β → γ) (x : Form α) :
    (x.map f).map g = x.map (g ∘ f) := by
  cases x <;>
    simp [map, Creation.map, ElementInit.map, SwitchCase.map, Handler.map,
      Binding.mapAll_mapAll]

mutual

theorem Binding.map_id : (b : Binding α) → Binding.map id b = b
  | .assignment _ _ => rfl
  | .nested _ bs => by
    simp only [Binding.map]
    rw [Binding.mapAll_id bs]
  | .list _ items => by
    simp [Binding.map, ElementInit.map]

theorem Binding.mapAll_id : (bs : List (Binding α)) → Binding.mapAll id bs = bs
  | [] => rfl
  | b :: bs => by
    simp only [Binding.mapAll]
    rw [Binding.map_id b, Binding.mapAll_id bs]

end

theorem Form.map_id (x : Form α) : x.map id = x := by
  cases x <;>
    simp [map, Creation.map, ElementInit.map, SwitchCase.map, Handler.map, Binding.mapAll_id]

namespace Node

theorem induction {P : Node ι → Prop}
    (h : ∀ l f, (∀ c ∈ f.children, P c) → P (.mk l f)) : ∀ n, P n
  | .mk l f => h l f fun c _ => induction h c
termination_by n => sizeOf n
decreasing_by
  have := Form.sizeOf_lt_of_mem ‹c ∈ f.children›
  simp only [Node.mk.sizeOf_spec]
  omega

theorem rendersAsStatements_mk (l : ι) (f : Form (Node ι)) :
    rendersAsStatements (.mk l f) = (f.map rendersAsStatements).isStatement := by
  rw [rendersAsStatements, fold, para_mk, Form.map_map]
  rfl

/-- The number of nodes. -/
def size : Node ι → Nat := fold fun _ f => f.children.sum + 1

theorem size_mk (l : ι) (f : Form (Node ι)) : size (.mk l f) = (f.children.map size).sum + 1 := by
  rw [size, fold, para_mk, Form.map_map, Form.children_map]
  rfl

theorem size_lt_of_mem {l : ι} {f : Form (Node ι)} {c : Node ι} (h : c ∈ f.children) :
    size c < size (.mk l f) := by
  have hle : size c ≤ (f.children.map size).sum := List.le_sum_of_mem (List.mem_map_of_mem h)
  rw [size_mk]
  omega

end Node
end TreeScribe
