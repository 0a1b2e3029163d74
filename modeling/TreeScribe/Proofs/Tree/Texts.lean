import TreeScribe.Proofs.Analysis.Meets
import TreeScribe.Proofs.TypeRef.Plain

/-! The texts in a tree.

Whatever is written of a tree, other than what the language itself has, comes from the names and display
texts in its nodes: `Node.texts`. Contents of literals and comments are not among them. -/
namespace TreeScribe

/-! ### Texts of the parts of nodes -/

def VariableKey.texts (key : VariableKey) : List String := key.name :: key.ty.texts

def Variable.texts (v : Variable) : List String := v.key.texts

def Target.texts (target : Target) : List String := target.name.toList ++ target.ty.texts

/-- The names of a method as it is called. Those of its parameters are not written. -/
def MethodInfo.texts (m : MethodInfo) : List String :=
  m.name :: m.declaring.texts ++ m.returnType.texts ++ TypeRef.textsAll m.genericArgs

def MemberInfo.texts (m : MemberInfo) : List String := m.name :: m.declaring.texts ++ m.memberType.texts

mutual

/-- What is written of a constant without quotes: decimal digits, names and display texts. -/
def ConstantValue.texts : ConstantValue → List String
  | .decimal s | .enumMember s | .object s => [s]
  | .type t => t.texts
  | .closure fields => textsFields fields
  | _ => []

def ConstantValue.textsFields : List (Captured ConstantValue) → List String
  | [] => []
  | ⟨name, ty, value⟩ :: fields => name :: ty.texts ++ texts value ++ textsFields fields

end

variable {α β ι : Type}

def Creation.texts (creation : Creation α) : List String := creation.ty.texts ++ creation.members

mutual

def Binding.texts : Binding α → List String
  | .assignment m _ | .list m _ => [m.name]
  | .nested m bindings => m.name :: textsAll bindings

def Binding.textsAll : List (Binding α) → List String
  | [] => []
  | b :: bs => texts b ++ textsAll bs

end

def Handler.texts (h : Handler α) : List String := h.test.texts ++ (h.caught.map Variable.texts).getD []

/-! ### Texts of nodes and trees -/

/-- The texts in a node itself. -/
def Form.texts : Form α → List String
  | .constant c => c.ty.texts ++ c.value.texts
  | .parameter v => v.texts
  | .binary _ _ _ ty method | .unary _ _ ty method => ty.texts ++ (method.map MethodInfo.texts).getD []
  | .conditional _ _ _ ty | .invoke _ _ ty | .switch _ _ _ ty | .default ty | .index _ _ _ ty => ty.texts
  | .block locals _ ty => locals.flatMap Variable.texts ++ ty.texts
  | .lambda _ parameters _ returnType ty =>
    parameters.flatMap Variable.texts ++ returnType.texts ++ ty.texts
  | .call _ method _ => method.texts
  | .member _ info => info.texts
  | .new creation | .listInit creation _ => creation.texts
  | .newArray elementType _ _ => elementType.texts
  | .memberInit creation bindings => creation.texts ++ Binding.textsAll bindings
  | .loop _ breakTarget _ => (breakTarget.map Target.texts).getD []
  | .jump _ target _ ty => target.texts ++ ty.texts
  | .label target _ => target.texts
  | .try _ handlers _ _ ty => handlers.flatMap Handler.texts ++ ty.texts
  | .typeTest _ operand _ => operand.texts
  | .comment _ => []
  | .extension name ty display _ => name :: display.toList ++ ty.texts

/-- The texts in all nodes of a tree. -/
def Node.texts (n : Node ι) : List String := n.nodes.flatMap (·.form.texts)

mutual

theorem Binding.texts_map (f : α → β) : (b : Binding α) → (Binding.map f b).texts = b.texts
  | .assignment _ _ | .list _ _ => rfl
  | .nested m bs => congrArg (m.name :: ·) (Binding.textsAll_mapAll f bs)

theorem Binding.textsAll_mapAll (f : α → β) :
    (bs : List (Binding α)) → Binding.textsAll (Binding.mapAll f bs) = Binding.textsAll bs
  | [] => rfl
  | b :: bs => by rw [mapAll, textsAll, textsAll, Binding.texts_map f b, Binding.textsAll_mapAll f bs]

end

theorem Form.texts_map (f : α → β) (form : Form α) : (form.map f).texts = form.texts := by
  cases form with
  | memberInit creation bindings => exact congrArg (creation.texts ++ ·) (Binding.textsAll_mapAll f bindings)
  | «try» tried handlers cleanup fault ty =>
    show (handlers.map (·.map f)).flatMap Handler.texts ++ ty.texts = _
    rw [List.flatMap_map]
    rfl
  | _ => rfl

/-- A captured variable of a constant is among its texts. -/
theorem ConstantValue.allPlain_captured {fields : List (Captured ConstantValue)}
    (h : AllPlain (textsFields fields)) : ∀ field ∈ fields, AllPlain field.ty.texts ∧ AllPlain field.value.texts := by
  induction fields with
  | nil => exact fun _ hf => nomatch hf
  | cons field fields ih =>
    obtain ⟨name, ty, value⟩ := field
    grind [textsFields]

namespace Node

theorem form_texts_subset {n x : Node ι} (h : x ∈ n.nodes) : x.form.texts ⊆ n.texts :=
  fun _ hs => List.mem_flatMap.mpr ⟨x, h, hs⟩

theorem texts_subset_of_mem {n x : Node ι} (h : x ∈ n.nodes) : x.texts ⊆ n.texts := by
  intro s hs
  obtain ⟨y, hy, hs⟩ := List.mem_flatMap.mp hs
  exact form_texts_subset (mem_nodes_trans hy h) hs

theorem texts_mk (l : ι) (form : Form (Node ι)) :
    (mk l form).texts = form.texts ++ form.children.flatMap texts := by
  unfold texts
  rw [nodes_mk, List.flatMap_cons, List.flatMap_assoc]
  rfl

end Node

/-! ### Types of nodes -/

theorem MethodInfo.allPlain_closedReturnType {m : MethodInfo} (h : AllPlain m.texts) :
    AllPlain m.closedReturnType.texts := by
  obtain ⟨hnames, hargs⟩ := allPlain_append.mp h
  have hreturn := (allPlain_append.mp hnames).2
  refine TypeRef.allPlain_substitute (fun a ha => ?_) m.returnType hreturn
  rw [TypeRef.textsAll_eq] at hargs
  exact hargs.mono fun s hs => List.mem_flatMap.mpr ⟨a, ha, hs⟩

/-- The texts in the type of a node are in the node, but for those of built-in types. -/
theorem Form.allPlain_ty {form : Form α} (h : AllPlain form.texts) : AllPlain form.ty.texts := by
  cases form with
  | call receiver method args => exact MethodInfo.allPlain_closedReturnType h
  | loop body breakTarget continueTarget =>
    cases breakTarget with
    | none => exact (by decide : AllPlain TypeRef.void.texts)
    | some target => exact (allPlain_append.mp h).2
  | typeTest e operand exact => exact (by decide : AllPlain TypeRef.bool.texts)
  | comment s => exact (by decide : AllPlain TypeRef.void.texts)
  | constant | new | memberInit | listInit => grind [Form.texts, Form.ty, Creation.texts, allPlain_append]
  | newArray elementType expressions bounds => exact h
  | member receiver info => exact (allPlain_append.mp h).2
  | parameter v => exact (allPlain_cons.mp h).2
  | extension name ty display operands => exact (allPlain_append.mp h).2
  | label target value => exact (allPlain_append.mp h).2
  | _ => grind [Form.texts, Form.ty, allPlain_append]

end TreeScribe
