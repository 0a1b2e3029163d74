import TreeScribe.Tree.Form

/-! Expression trees.

A `Node ι` is a form with a label from `ι`. Trees as they are stored have no labels (`Tree`);
for analysis and rendering every node has a number (`Expr`), and two places that hold the same
number hold the same node. Traversals are written as algebras on forms: `para` hands each child
to the algebra together with the result for it, and `para_mk` is its defining equation. -/
namespace TreeScribe

inductive Node (ι : Type) where
  | mk (label : ι) (form : Form (Node ι))

/-- A tree without labels. -/
abbrev Tree := Node Unit

/-- A tree whose nodes are numbered. -/
abbrev Expr := Node Nat

variable {α β ι κ : Type}

/-! ### Children are smaller -/

mutual

theorem Binding.sizeOf_lt_of_mem [SizeOf α] {c : α} :
    (b : Binding α) → c ∈ b.children → sizeOf c < sizeOf b
  | .assignment _ value, h => by
    simp only [Binding.children, List.mem_singleton] at h
    subst h
    simp only [Binding.assignment.sizeOf_spec]
    omega
  | .nested _ bindings, h => by
    have := Binding.sizeOf_lt_of_mem_all bindings (by simpa [Binding.children] using h)
    simp only [Binding.nested.sizeOf_spec]
    omega
  | .list _ items, h => by
    simp only [Binding.children, List.mem_flatMap] at h
    obtain ⟨i, hi, hc⟩ := h
    have h₁ := List.sizeOf_lt_of_mem hi
    have h₂ := List.sizeOf_lt_of_mem hc
    have h₃ : sizeOf i = 1 + sizeOf i.addMethod + sizeOf i.arguments := by
      cases i; simp
    simp only [Binding.list.sizeOf_spec]
    omega

theorem Binding.sizeOf_lt_of_mem_all [SizeOf α] {c : α} :
    (bs : List (Binding α)) → c ∈ Binding.childrenAll bs → sizeOf c < sizeOf bs
  | [], h => by simp [Binding.childrenAll] at h
  | b :: bs, h => by
    simp only [Binding.childrenAll, List.mem_append] at h
    simp only [List.cons.sizeOf_spec]
    rcases h with h | h
    · have := Binding.sizeOf_lt_of_mem b h
      omega
    · have := Binding.sizeOf_lt_of_mem_all bs h
      omega

end

theorem sizeOf_lt_of_mem_toList [SizeOf α] {c : α} {o : Option α} (h : c ∈ o.toList) :
    sizeOf c < sizeOf o := by
  cases o with
  | none => simp at h
  | some a =>
    simp only [Option.toList_some, List.mem_singleton] at h
    subst h
    simp

theorem Creation.sizeOf_lt_of_mem [SizeOf α] {c : α} {n : Creation α} (h : c ∈ n.arguments) :
    sizeOf c < sizeOf n := by
  have := List.sizeOf_lt_of_mem h
  cases n
  simp only [Creation.mk.sizeOf_spec] at *
  omega

theorem ElementInit.sizeOf_lt_of_mem [SizeOf α] {c : α} {items : List (ElementInit α)}
    (h : c ∈ items.flatMap (·.arguments)) : sizeOf c < sizeOf items := by
  simp only [List.mem_flatMap] at h
  obtain ⟨⟨_, arguments⟩, hi, hc⟩ := h
  have h₁ := List.sizeOf_lt_of_mem hi
  have h₂ : sizeOf c < sizeOf arguments := List.sizeOf_lt_of_mem hc
  simp only [ElementInit.mk.sizeOf_spec] at h₁
  omega

theorem SwitchCase.sizeOf_lt_of_mem [SizeOf α] {c : α} {cases : List (SwitchCase α)}
    (h : c ∈ cases.flatMap fun x => x.tests ++ [x.body]) : sizeOf c < sizeOf cases := by
  simp only [List.mem_flatMap, List.mem_append, List.mem_singleton] at h
  obtain ⟨⟨tests, body⟩, hi, hc⟩ := h
  have h₁ := List.sizeOf_lt_of_mem hi
  simp only [SwitchCase.mk.sizeOf_spec] at h₁
  rcases hc with hc | hc
  · have h₂ : sizeOf c < sizeOf tests := List.sizeOf_lt_of_mem hc
    omega
  · subst hc
    omega

theorem Handler.sizeOf_lt_of_mem [SizeOf α] {c : α} {handlers : List (Handler α)}
    (h : c ∈ handlers.flatMap fun x => x.filter.toList ++ [x.body]) :
    sizeOf c < sizeOf handlers := by
  simp only [List.mem_flatMap, List.mem_append, List.mem_singleton] at h
  obtain ⟨⟨test, caught, filter, body⟩, hi, hc⟩ := h
  have h₁ := List.sizeOf_lt_of_mem hi
  simp only [Handler.mk.sizeOf_spec] at h₁
  rcases hc with hc | hc
  · have h₂ : sizeOf c < sizeOf filter := sizeOf_lt_of_mem_toList hc
    omega
  · subst hc
    omega

/-- A child is smaller than its form. -/
theorem Form.sizeOf_lt_of_mem [SizeOf α] {c : α} {x : Form α} (h : c ∈ x.children) :
    sizeOf c < sizeOf x := by
  cases x with
  | constant _ | parameter _ | default _ | comment _ => simp [children] at h
  | binary op left right ty method =>
    simp only [children, List.mem_cons, List.not_mem_nil, or_false] at h
    simp only [Form.binary.sizeOf_spec]
    rcases h with rfl | rfl <;> omega
  | conditional test ifTrue ifFalse ty =>
    simp only [children, List.mem_cons, List.not_mem_nil, or_false] at h
    simp only [Form.conditional.sizeOf_spec]
    rcases h with rfl | rfl | rfl <;> omega
  | unary op operand ty method =>
    have := sizeOf_lt_of_mem_toList h
    simp only [Form.unary.sizeOf_spec]
    omega
  | member receiver info =>
    have := sizeOf_lt_of_mem_toList h
    simp only [Form.member.sizeOf_spec]
    omega
  | jump kind target value ty =>
    have := sizeOf_lt_of_mem_toList h
    simp only [Form.jump.sizeOf_spec]
    omega
  | label target value =>
    have := sizeOf_lt_of_mem_toList h
    simp only [Form.label.sizeOf_spec]
    omega
  | block locals expressions ty =>
    simp only [children] at h
    have := List.sizeOf_lt_of_mem h
    simp only [Form.block.sizeOf_spec]
    omega
  | newArray elementType expressions bounds =>
    simp only [children] at h
    have := List.sizeOf_lt_of_mem h
    simp only [Form.newArray.sizeOf_spec]
    omega
  | extension name ty display operands =>
    simp only [children] at h
    have := List.sizeOf_lt_of_mem h
    simp only [Form.extension.sizeOf_spec]
    omega
  | new creation =>
    have := Creation.sizeOf_lt_of_mem h
    simp only [Form.new.sizeOf_spec]
    omega
  | lambda name parameters body returnType ty =>
    simp only [children, List.mem_singleton] at h
    subst h
    simp only [Form.lambda.sizeOf_spec]
    omega
  | loop body breakTarget continueTarget =>
    simp only [children, List.mem_singleton] at h
    subst h
    simp only [Form.loop.sizeOf_spec]
    omega
  | typeTest expression operand exact =>
    simp only [children, List.mem_singleton] at h
    subst h
    simp only [Form.typeTest.sizeOf_spec]
    omega
  | call receiver method arguments =>
    simp only [children, List.mem_append] at h
    simp only [Form.call.sizeOf_spec]
    rcases h with h | h
    · have := sizeOf_lt_of_mem_toList h
      omega
    · have := List.sizeOf_lt_of_mem h
      omega
  | invoke target arguments ty =>
    simp only [children, List.mem_cons] at h
    simp only [Form.invoke.sizeOf_spec]
    rcases h with rfl | h
    · omega
    · have := List.sizeOf_lt_of_mem h
      omega
  | index object indexer arguments ty =>
    simp only [children, List.mem_cons] at h
    simp only [Form.index.sizeOf_spec]
    rcases h with rfl | h
    · omega
    · have := List.sizeOf_lt_of_mem h
      omega
  | memberInit creation bindings =>
    simp only [children, List.mem_append] at h
    simp only [Form.memberInit.sizeOf_spec]
    rcases h with h | h
    · have := Creation.sizeOf_lt_of_mem h
      omega
    · have := Binding.sizeOf_lt_of_mem_all _ h
      omega
  | listInit creation items =>
    simp only [children, List.mem_append] at h
    simp only [Form.listInit.sizeOf_spec]
    rcases h with h | h
    · have := Creation.sizeOf_lt_of_mem h
      omega
    · have := ElementInit.sizeOf_lt_of_mem h
      omega
  | switch value cases defaultBody ty =>
    simp only [children, List.cons_append, List.mem_cons, List.mem_append] at h
    simp only [Form.switch.sizeOf_spec]
    rcases h with rfl | h | h
    · omega
    · have := SwitchCase.sizeOf_lt_of_mem h
      omega
    · have := sizeOf_lt_of_mem_toList h
      omega
  | «try» body handlers cleanup fault ty =>
    simp only [children, List.cons_append, List.mem_cons, List.mem_append, or_assoc] at h
    simp only [Form.try.sizeOf_spec]
    rcases h with rfl | h | h | h
    · omega
    · have := Handler.sizeOf_lt_of_mem h
      omega
    · have := sizeOf_lt_of_mem_toList h
      omega
    · have := sizeOf_lt_of_mem_toList h
      omega

/-! ### Children with a fact about each -/

section Attach

variable {P : α → Prop}

def Creation.attachWith (n : Creation α) (h : ∀ c ∈ n.arguments, P c) :
    Creation { c // P c } :=
  ⟨n.ty, n.constructor, n.arguments.attachWith P h, n.members⟩

def ElementInit.attachAll :
    (items : List (ElementInit α)) → (∀ c ∈ items.flatMap (·.arguments), P c) →
      List (ElementInit { c // P c })
  | [], _ => []
  | i :: is, h =>
    ⟨i.addMethod, i.arguments.attachWith P fun c hc => h c (by simp [hc])⟩ ::
      attachAll is fun c hc => h c (by
        rw [List.flatMap_cons, List.mem_append]
        exact Or.inr hc)

def SwitchCase.attachAll :
    (cases : List (SwitchCase α)) → (∀ c ∈ cases.flatMap (fun x => x.tests ++ [x.body]), P c) →
      List (SwitchCase { c // P c })
  | [], _ => []
  | x :: xs, h =>
    ⟨x.tests.attachWith P fun c hc => h c (by simp [hc]), ⟨x.body, h _ (by simp)⟩⟩ ::
      attachAll xs fun c hc => h c (by
        rw [List.flatMap_cons, List.mem_append]
        exact Or.inr hc)

def Handler.attachAll :
    (handlers : List (Handler α)) →
      (∀ c ∈ handlers.flatMap (fun x => x.filter.toList ++ [x.body]), P c) →
      List (Handler { c // P c })
  | [], _ => []
  | x :: xs, h =>
    ⟨x.test, x.caught, x.filter.attachWith P fun c hc => h c (by simp [hc]),
        ⟨x.body, h _ (by simp)⟩⟩ ::
      attachAll xs fun c hc => h c (by
        rw [List.flatMap_cons, List.mem_append]
        exact Or.inr hc)

mutual

def Binding.attachWith : (b : Binding α) → (∀ c ∈ b.children, P c) → Binding { c // P c }
  | .assignment m value, h => .assignment m ⟨value, h _ (by simp [Binding.children])⟩
  | .nested m bindings, h =>
    .nested m (Binding.attachAll bindings fun c hc => h c (by simpa [Binding.children] using hc))
  | .list m items, h =>
    .list m (ElementInit.attachAll items fun c hc => h c (by simpa [Binding.children] using hc))

def Binding.attachAll :
    (bs : List (Binding α)) → (∀ c ∈ Binding.childrenAll bs, P c) → List (Binding { c // P c })
  | [], _ => []
  | b :: bs, h =>
    Binding.attachWith b (fun c hc => h c (by simp [Binding.childrenAll, hc])) ::
      Binding.attachAll bs fun c hc => h c (by simp [Binding.childrenAll, hc])

end

/-- The form with each child paired with a proof of `P` for it. -/
def Form.attachWith (x : Form α) (h : ∀ c ∈ x.children, P c) : Form { c // P c } :=
  match x, h with
  | .constant c, _ => .constant c
  | .parameter v, _ => .parameter v
  | .binary op left right ty method, h =>
    .binary op ⟨left, h _ (by simp [children])⟩ ⟨right, h _ (by simp [children])⟩ ty method
  | .unary op operand ty method, h =>
    .unary op (operand.attachWith P fun c hc => h c (by simp [children, hc])) ty method
  | .conditional test ifTrue ifFalse ty, h =>
    .conditional ⟨test, h _ (by simp [children])⟩ ⟨ifTrue, h _ (by simp [children])⟩
      ⟨ifFalse, h _ (by simp [children])⟩ ty
  | .block locals expressions ty, h =>
    .block locals (expressions.attachWith P fun c hc => h c hc) ty
  | .lambda name parameters body returnType ty, h =>
    .lambda name parameters ⟨body, h _ (by simp [children])⟩ returnType ty
  | .call receiver method arguments, h =>
    .call (receiver.attachWith P fun c hc => h c (by simp [children, hc])) method
      (arguments.attachWith P fun c hc => h c (by simp [children, hc]))
  | .invoke target arguments ty, h =>
    .invoke ⟨target, h _ (by simp [children])⟩
      (arguments.attachWith P fun c hc => h c (by simp [children, hc])) ty
  | .member receiver info, h =>
    .member (receiver.attachWith P fun c hc => h c (by simp [children, hc])) info
  | .new creation, h => .new (creation.attachWith fun c hc => h c hc)
  | .newArray elementType expressions bounds, h =>
    .newArray elementType (expressions.attachWith P fun c hc => h c hc) bounds
  | .memberInit creation bindings, h =>
    .memberInit (creation.attachWith fun c hc => h c (by simp [children, hc]))
      (Binding.attachAll bindings fun c hc => h c (by simp [children, hc]))
  | .listInit creation items, h =>
    .listInit (creation.attachWith fun c hc => h c (by simp [children, hc]))
      (ElementInit.attachAll items fun c hc => h c (by
        rw [children, List.mem_append]
        exact Or.inr hc))
  | .loop body breakTarget continueTarget, h =>
    .loop ⟨body, h _ (by simp [children])⟩ breakTarget continueTarget
  | .jump kind target value ty, h =>
    .jump kind target (value.attachWith P fun c hc => h c (by simp [children, hc])) ty
  | .label target value, h =>
    .label target (value.attachWith P fun c hc => h c (by simp [children, hc]))
  | .switch value cases defaultBody ty, h =>
    .switch ⟨value, h _ (by simp [children])⟩
      (SwitchCase.attachAll cases fun c hc => h c (by
        rw [children, List.cons_append, List.mem_cons, List.mem_append]
        exact Or.inr (Or.inl hc)))
      (defaultBody.attachWith P fun c hc => h c (by simp [children, hc])) ty
  | .try body handlers cleanup fault ty, h =>
    .try ⟨body, h _ (by simp [children])⟩
      (Handler.attachAll handlers fun c hc => h c (by
        rw [children, List.mem_append, List.mem_append, List.mem_cons]
        exact Or.inl (Or.inl (Or.inr hc))))
      (cleanup.attachWith P fun c hc => h c (by simp [children, hc]))
      (fault.attachWith P fun c hc => h c (by simp [children, hc])) ty
  | .default ty, _ => .default ty
  | .index object indexer arguments ty, h =>
    .index ⟨object, h _ (by simp [children])⟩ indexer
      (arguments.attachWith P fun c hc => h c (by simp [children, hc])) ty
  | .typeTest expression operand exact, h =>
    .typeTest ⟨expression, h _ (by simp [children])⟩ operand exact
  | .comment text, _ => .comment text
  | .extension name ty display operands, h =>
    .extension name ty display (operands.attachWith P fun c hc => h c hc)

/-! Forgetting the facts gives the form back. -/

theorem ElementInit.map_attachAll (f : α → β) (items : List (ElementInit α))
    (h : ∀ c ∈ items.flatMap (·.arguments), P c) :
    (attachAll items h).map (·.map fun c => f c.1) = items.map (·.map f) := by
  induction items with
  | nil => rfl
  | cons i is ih =>
    rw [attachAll, List.map_cons, List.map_cons, ih]
    simp [ElementInit.map]

theorem SwitchCase.map_attachAll (f : α → β) (cases : List (SwitchCase α))
    (h : ∀ c ∈ cases.flatMap (fun x => x.tests ++ [x.body]), P c) :
    (attachAll cases h).map (·.map fun c => f c.1) = cases.map (·.map f) := by
  induction cases with
  | nil => rfl
  | cons i is ih =>
    rw [attachAll, List.map_cons, List.map_cons, ih]
    simp [SwitchCase.map]

theorem Handler.map_attachAll (f : α → β) (handlers : List (Handler α))
    (h : ∀ c ∈ handlers.flatMap (fun x => x.filter.toList ++ [x.body]), P c) :
    (attachAll handlers h).map (·.map fun c => f c.1) = handlers.map (·.map f) := by
  induction handlers with
  | nil => rfl
  | cons i is ih =>
    rw [attachAll, List.map_cons, List.map_cons, ih]
    simp [Handler.map]

mutual

theorem Binding.map_attachWith (f : α → β) :
    (b : Binding α) → (h : ∀ c ∈ b.children, P c) →
      Binding.map (fun c => f c.1) (Binding.attachWith b h) = Binding.map f b
  | .assignment _ _, _ => by simp [Binding.attachWith, Binding.map]
  | .nested _ bs, h => by
    simp only [Binding.attachWith, Binding.map]
    rw [Binding.mapAll_attachAll f bs]
  | .list _ items, h => by
    simp only [Binding.attachWith, Binding.map]
    rw [ElementInit.map_attachAll]

theorem Binding.mapAll_attachAll (f : α → β) :
    (bs : List (Binding α)) → (h : ∀ c ∈ Binding.childrenAll bs, P c) →
      Binding.mapAll (fun c => f c.1) (Binding.attachAll bs h) = Binding.mapAll f bs
  | [], _ => rfl
  | b :: bs, h => by
    simp only [Binding.attachAll, Binding.mapAll]
    rw [Binding.map_attachWith f b, Binding.mapAll_attachAll f bs]

end

theorem Form.map_attachWith (f : α → β) (x : Form α) (h : ∀ c ∈ x.children, P c) :
    (x.attachWith h).map (fun c => f c.1) = x.map f := by
  cases x <;>
    simp [Form.attachWith, Form.map, Creation.attachWith, Creation.map, ElementInit.map_attachAll,
      SwitchCase.map_attachAll, Handler.map_attachAll, Binding.mapAll_attachAll]

end Attach

/-! ### Traversals -/

namespace Node

def label : Node ι → ι
  | .mk l _ => l

def form : Node ι → Form (Node ι)
  | .mk _ f => f

def children (n : Node ι) : List (Node ι) := n.form.children

/-- Combines each node with the results for its children, which come with the children. -/
def para (alg : ι → Form (Node ι × β) → β) : Node ι → β
  | .mk l f =>
    alg l ((f.attachWith fun _ h => Form.sizeOf_lt_of_mem h).map fun c => (c.1, para alg c.1))
termination_by n => sizeOf n
decreasing_by
  have := c.2
  simp only [Node.mk.sizeOf_spec]
  omega

theorem para_mk (alg : ι → Form (Node ι × β) → β) (l : ι) (f : Form (Node ι)) :
    para alg (.mk l f) = alg l (f.map fun c => (c, para alg c)) := by
  rw [para, Form.map_attachWith (fun c => (c, para alg c))]

/-- Combines each node with the results for its children. -/
def fold (alg : ι → Form β → β) : Node ι → β := para fun l f => alg l (f.map (·.2))

/-- The number of nodes, a shared one counted at each place. -/
def count (n : Node ι) : Nat := n.fold fun _ f => @List.sum Nat _ Zero.ofOfNat0 f.children + 1

/-- The tree without its labels. -/
def erase (n : Node ι) : Tree := n.fold fun _ f => .mk () f

end Node

/-- Numbers the nodes in order, a parent before its children. -/
def Tree.number (t : Tree) : StateM Nat Expr :=
  t.fold fun _ f => do
    let label ← get
    set (label + 1)
    return .mk label (← f.mapM id)

end TreeScribe
