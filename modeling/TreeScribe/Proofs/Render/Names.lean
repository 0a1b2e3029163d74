import TreeScribe.Proofs.Tree.Induction
import TreeScribe.Render.Tree

/-! Which types a node names.

The types that a node names itself, besides those that its children name, follow from the settings, the
node and what the analysis says of its declarations. -/
namespace TreeScribe

namespace Form

variable {α β : Type}

/-- The children that are written. A constant that holds captured variables is not, since they are
written without it, and neither is what a concatenation is called on. -/
def written (settings : Settings) (isClosure : α → Bool) : Form α → List α
  | .member receiver _ => receiver.toList.filter (!isClosure ·)
  | .call receiver m args => if settings.writesConcat m then args else receiver.toList ++ args
  | form => form.children

variable (settings : Settings)

theorem written_map (isClosure : β → Bool) (g : α → β) (form : Form α) :
    (form.map g).written settings isClosure =
      (form.written settings fun a => isClosure (g a)).map g := by
  have hchildren := children_map g form
  cases form with
  | member receiver info =>
    show ((receiver.map g).toList.filter _) = _
    rw [Option.toList_map, List.filter_map]
    rfl
  | call receiver m args =>
    show (if _ then args.map g else _) = (if _ then args else _).map g
    split
    · rfl
    · exact hchildren
  | _ => exact hchildren

theorem written_subset (isClosure : α → Bool) (form : Form α) :
    form.written settings isClosure ⊆ form.children := by
  cases form with
  | member receiver info => exact List.filter_sublist.subset
  | call receiver m args =>
    show (if _ then args else receiver.toList ++ args) ⊆ receiver.toList ++ args
    split
    · exact List.subset_append_right ..
    · exact List.Subset.refl _
  | _ => exact List.Subset.refl _

end Form

/-! ### Types of declarations -/

namespace Named

variable (env : Env)

/-- The type of an assignment that declares its variable with the type. -/
def join (node : Nat) (ty : TypeRef) : List TypeRef :=
  if env.analysis.isTypedJoin node && (env.analysis.target? node).any fun slot =>
      (env.analysis.scopes.info? slot).any (·.joined? == some node)
  then [ty] else []

/-- The type of an output argument that declares its variable with the type. -/
def output (e : Expr) : List TypeRef :=
  if env.settings.choice .explicitTypes && (env.analysis.target? e.label).any fun slot =>
      (env.analysis.scopes.info? slot).any (·.declaration == .inlineOutput)
  then (e.asParameter?.map (·.ty)).toList else []

def outputs (args : List Expr) : List TypeRef := args.flatMap (output env)

theorem outputs_subset {args args' : List Expr} (h : args ⊆ args') :
    outputs env args ⊆ outputs env args' := by
  intro t ht
  obtain ⟨e, he, ht⟩ := List.mem_flatMap.mp ht
  exact List.mem_flatMap.mpr ⟨e, h he, ht⟩

end Named

/-- The types of the declarations that a node writes itself. -/
def Form.declared (env : Env) (node : Nat) : Form Expr → List TypeRef
  | .binary _ left _ _ _ => Named.join env node left.ty
  | .block _ _ _ => (env.analysis.blockDeclarations node).map (·.ty)
  | .call _ _ args | .invoke _ args _ => Named.outputs env args
  | .new creation | .memberInit creation _ | .listInit creation _ => Named.outputs env creation.arguments
  | _ => []

/-! ### Types that are spelled out -/

namespace Named

variable (settings : Settings)

def binary (op : BinaryOp) (method : Option MethodInfo) : List TypeRef :=
  match method.filter (!·.isOperator) with
  | some m => [m.declaring]
  | none => if op == .power then [.math] else []

def unary (op : UnaryOp) (operand : Option Expr) (ty : TypeRef) (method : Option MethodInfo) :
    List TypeRef :=
  match operand, method.filter (!·.isOperator) with
  | none, _ => []
  | some _, some m => [m.declaring]
  | some e, none => if op.isConversion && e.ty != ty || op == .typeAs then [ty] else []

def literal (v : ConstantValue) (ty : TypeRef) : List TypeRef :=
  match v with
  | .float x => if (Render.numberStyle.text? x).isNone then [ty] else []
  | .type t => [t]
  | .enumMember _ | .closure _ => [ty]
  | _ => []

/-- The type of a static call, which an extension method does not name. -/
def receiver (receiver : Option Expr) (m : MethodInfo) (args : List Expr) : List TypeRef :=
  match receiver, m.isExtension, args with
  | some _, _, _ => []
  | none, true, _ :: _ => []
  | none, _, _ => [m.declaring]

def genericArgs (m : MethodInfo) : List TypeRef := if settings.writesGenericArgs m then m.genericArgs else []

def call (e : Option Expr) (m : MethodInfo) (args : List Expr) : List TypeRef :=
  if settings.writesConcat m then [] else receiver e m args ++ genericArgs settings m

/-- The types in the value of a captured variable. -/
def captured (fields : List (Captured ConstantValue)) (info : MemberInfo) : List TypeRef :=
  if settings.choice .capturedValues then
    ((fields.find? (·.name == info.name)).map fun field => literal field.value field.ty).getD []
  else []

def member (receiver : Option Expr) (info : MemberInfo) : List TypeRef :=
  match receiver with
  | none => [info.declaring]
  | some e =>
    match e.form with
    | .constant ⟨.closure fields, _⟩ => captured settings fields info
    | _ => []

def newArray (elementType : TypeRef) (expressions : List Expr) (bounds : Bool) : List TypeRef :=
  if bounds || expressions.isEmpty then [(Render.splitJagged elementType).1]
  else if settings.leavesElementType (expressions.map (·.ty)) then [] else [elementType]

def lambda (parameters : List Variable) : List TypeRef :=
  if settings.writesParameterTypes parameters then parameters.map (·.ty) else []

end Named

/-- The types that a node spells out itself, other than those of declarations. -/
def Form.spelled (settings : Settings) : Form Expr → List TypeRef
  | .constant c => Named.literal c.value c.ty
  | .binary op _ _ _ method =>
    if op.isAssignment then (if op == .powerAssign then [.math] else []) else Named.binary op method
  | .unary op operand ty method => Named.unary op operand ty method
  | .lambda _ parameters _ _ _ => Named.lambda settings parameters
  | .call receiver m args => Named.call settings receiver m args
  | .member receiver info => Named.member settings receiver info
  | .new creation => if creation.ty.isAnonymous then [] else [creation.ty]
  | .newArray elementType expressions bounds => Named.newArray settings elementType expressions bounds
  | .memberInit creation _ | .listInit creation _ => [creation.ty]
  | .try _ handlers _ _ _ => handlers.map (·.test)
  | .default ty => if ty.isVoid then [] else [ty]
  | .typeTest _ tested _ => [tested]
  | _ => []

end TreeScribe
