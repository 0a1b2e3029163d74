import TreeScribe.Member
import TreeScribe.Operator
import TreeScribe.Tree.Constant

/-! The forms that a node of an expression tree can take.

A `Form α` is one node whose children are values of `α`, so that it serves for whole trees, for
trees with labelled nodes and for what a traversal has made of the children. `children` lists
them in order of evaluation, and `map` and `mapM` replace them in place. -/
namespace TreeScribe

/-- A lambda parameter or block variable. Type and name identify it. -/
structure Variable where
  name : String
  ty : TypeRef
  /-- A lambda parameter passed by reference. -/
  isByRef : Bool := false
deriving DecidableEq, Repr

/-- What a jump leads to. -/
structure Target where
  name : Option String := none
  ty : TypeRef
  /-- Tells unnamed targets of one type apart. -/
  id : Nat := 0
deriving DecidableEq, Repr

inductive JumpKind where
  | goto
  | return
  | break
  | continue
deriving DecidableEq, Repr, Inhabited

structure Creation (α : Type) where
  ty : TypeRef
  constructor : Option ConstructorInfo := none
  arguments : List α := []
  /-- The property names of an anonymous type, in the order of the arguments. -/
  members : List String := []
deriving DecidableEq, Repr

structure ElementInit (α : Type) where
  addMethod : MethodInfo
  arguments : List α
deriving DecidableEq, Repr

inductive Binding (α : Type) where
  /-- `Member = value` -/
  | assignment (member : MemberInfo) (value : α)
  /-- `Member = { Nested = value }` -/
  | nested (member : MemberInfo) (bindings : List (Binding α))
  /-- `Member = { item, item }` -/
  | list (member : MemberInfo) (items : List (ElementInit α))
deriving Repr

structure SwitchCase (α : Type) where
  tests : List α
  body : α
deriving DecidableEq, Repr

structure Handler (α : Type) where
  test : TypeRef
  caught : Option Variable := none
  filter : Option α := none
  body : α
deriving DecidableEq, Repr

/-- One node with children in `α`. -/
inductive Form (α : Type) where
  | constant (value : Constant)
  | parameter (v : Variable)
  /-- `method` implements a user-defined operator. -/
  | binary (op : BinaryOp) (left right : α) (ty : TypeRef) (method : Option MethodInfo)
  /-- Without an operand, an exception is thrown again. -/
  | unary (op : UnaryOp) (operand : Option α) (ty : TypeRef) (method : Option MethodInfo)
  | conditional (test ifTrue ifFalse : α) (ty : TypeRef)
  | block (locals : List Variable) (expressions : List α) (ty : TypeRef)
  | lambda (name : Option String) (parameters : List Variable) (body : α)
      (returnType ty : TypeRef)
  /-- Static calls have no receiver. -/
  | call (receiver : Option α) (method : MethodInfo) (arguments : List α)
  | invoke (target : α) (arguments : List α) (ty : TypeRef)
  /-- Static members have no receiver. -/
  | member (receiver : Option α) (member : MemberInfo)
  | new (creation : Creation α)
  /-- The expressions are the elements, or else the bounds. -/
  | newArray (elementType : TypeRef) (expressions : List α) (bounds : Bool)
  | memberInit (creation : Creation α) (bindings : List (Binding α))
  | listInit (creation : Creation α) (items : List (ElementInit α))
  | loop (body : α) (breakTarget continueTarget : Option Target)
  | jump (kind : JumpKind) (target : Target) (value : Option α) (ty : TypeRef)
  | label (target : Target) (defaultValue : Option α)
  | switch (value : α) (cases : List (SwitchCase α)) (defaultBody : Option α) (ty : TypeRef)
  | try (body : α) (handlers : List (Handler α)) (cleanup fault : Option α) (ty : TypeRef)
  | default (ty : TypeRef)
  /-- Arrays have no indexer property. -/
  | index (object : α) (indexer : Option MemberInfo) (arguments : List α) (ty : TypeRef)
  /-- `exact` asks for the type itself, not for one derived from it. -/
  | typeTest (expression : α) (operand : TypeRef) (exact : Bool)
  | comment (text : String)
  /-- A node of a sort of its own, shown by its text if it has one. -/
  | extension (name : String) (ty : TypeRef) (display : Option String) (operands : List α)
deriving Repr

variable {α β : Type}

/-! ### Children -/

namespace Binding

def member : Binding α → MemberInfo
  | .assignment m _ => m
  | .nested m _ => m
  | .list m _ => m

mutual

def children : Binding α → List α
  | .assignment _ value => [value]
  | .nested _ bindings => childrenAll bindings
  | .list _ items => items.flatMap (·.arguments)

def childrenAll : List (Binding α) → List α
  | [] => []
  | b :: bs => children b ++ childrenAll bs

end

end Binding

namespace Form

/-- The children of a node, in order of evaluation. -/
def children : Form α → List α
  | .constant _ | .parameter _ | .default _ | .comment _ => []
  | .binary _ left right _ _ => [left, right]
  | .unary _ operand _ _ => operand.toList
  | .conditional test ifTrue ifFalse _ => [test, ifTrue, ifFalse]
  | .block _ expressions _ => expressions
  | .lambda _ _ body _ _ => [body]
  | .call receiver _ arguments => receiver.toList ++ arguments
  | .invoke target arguments _ => target :: arguments
  | .member receiver _ => receiver.toList
  | .new creation => creation.arguments
  | .newArray _ expressions _ => expressions
  | .memberInit creation bindings => creation.arguments ++ Binding.childrenAll bindings
  | .listInit creation items => creation.arguments ++ items.flatMap (·.arguments)
  | .loop body _ _ => [body]
  | .jump _ _ value _ => value.toList
  | .label _ value => value.toList
  | .switch value cases defaultBody _ =>
    value :: cases.flatMap (fun c => c.tests ++ [c.body]) ++ defaultBody.toList
  | .try body handlers cleanup fault _ =>
    body :: handlers.flatMap (fun h => h.filter.toList ++ [h.body]) ++
      cleanup.toList ++ fault.toList
  | .index object _ arguments _ => object :: arguments
  | .typeTest expression _ _ => [expression]
  | .extension _ _ _ operands => operands

end Form

/-! ### Replacing children -/

section Map

variable (f : α → β)

def Creation.map (n : Creation α) : Creation β :=
  ⟨n.ty, n.constructor, n.arguments.map f, n.members⟩

def ElementInit.map (i : ElementInit α) : ElementInit β := ⟨i.addMethod, i.arguments.map f⟩

def SwitchCase.map (c : SwitchCase α) : SwitchCase β := ⟨c.tests.map f, f c.body⟩

def Handler.map (h : Handler α) : Handler β := ⟨h.test, h.caught, h.filter.map f, f h.body⟩

mutual

def Binding.map : Binding α → Binding β
  | .assignment m value => .assignment m (f value)
  | .nested m bindings => .nested m (Binding.mapAll bindings)
  | .list m items => .list m (items.map (·.map f))

def Binding.mapAll : List (Binding α) → List (Binding β)
  | [] => []
  | b :: bs => Binding.map b :: Binding.mapAll bs

end

def Form.map : Form α → Form β
  | .constant c => .constant c
  | .parameter v => .parameter v
  | .binary op left right ty method => .binary op (f left) (f right) ty method
  | .unary op operand ty method => .unary op (operand.map f) ty method
  | .conditional test ifTrue ifFalse ty => .conditional (f test) (f ifTrue) (f ifFalse) ty
  | .block locals expressions ty => .block locals (expressions.map f) ty
  | .lambda name parameters body returnType ty => .lambda name parameters (f body) returnType ty
  | .call receiver method arguments => .call (receiver.map f) method (arguments.map f)
  | .invoke target arguments ty => .invoke (f target) (arguments.map f) ty
  | .member receiver info => .member (receiver.map f) info
  | .new creation => .new (creation.map f)
  | .newArray elementType expressions bounds => .newArray elementType (expressions.map f) bounds
  | .memberInit creation bindings => .memberInit (creation.map f) (Binding.mapAll f bindings)
  | .listInit creation items => .listInit (creation.map f) (items.map (·.map f))
  | .loop body breakTarget continueTarget => .loop (f body) breakTarget continueTarget
  | .jump kind target value ty => .jump kind target (value.map f) ty
  | .label target value => .label target (value.map f)
  | .switch value cases defaultBody ty =>
    .switch (f value) (cases.map (·.map f)) (defaultBody.map f) ty
  | .try body handlers cleanup fault ty =>
    .try (f body) (handlers.map (·.map f)) (cleanup.map f) (fault.map f) ty
  | .default ty => .default ty
  | .index object indexer arguments ty => .index (f object) indexer (arguments.map f) ty
  | .typeTest expression operand exact => .typeTest (f expression) operand exact
  | .comment text => .comment text
  | .extension name ty display operands => .extension name ty display (operands.map f)

end Map

section MapM

variable {m : Type → Type} [Monad m] (f : α → m β)

def Creation.mapM (n : Creation α) : m (Creation β) := do
  return ⟨n.ty, n.constructor, ← n.arguments.mapM f, n.members⟩

def ElementInit.mapM (i : ElementInit α) : m (ElementInit β) := do
  return ⟨i.addMethod, ← i.arguments.mapM f⟩

def SwitchCase.mapM (c : SwitchCase α) : m (SwitchCase β) := do
  return ⟨← c.tests.mapM f, ← f c.body⟩

def Handler.mapM (h : Handler α) : m (Handler β) := do
  return ⟨h.test, h.caught, ← h.filter.mapM f, ← f h.body⟩

mutual

def Binding.mapM : Binding α → m (Binding β)
  | .assignment x value => do return .assignment x (← f value)
  | .nested x bindings => do return .nested x (← Binding.mapAllM bindings)
  | .list x items => do return .list x (← items.mapM (·.mapM f))

def Binding.mapAllM : List (Binding α) → m (List (Binding β))
  | [] => return []
  | b :: bs => do
    let b ← Binding.mapM b
    let bs ← Binding.mapAllM bs
    return b :: bs

end

/-- Replaces the children one after the other, in order. -/
def Form.mapM : Form α → m (Form β)
  | .constant c => return .constant c
  | .parameter v => return .parameter v
  | .binary op left right ty method => return .binary op (← f left) (← f right) ty method
  | .unary op operand ty method => return .unary op (← operand.mapM f) ty method
  | .conditional test ifTrue ifFalse ty =>
    return .conditional (← f test) (← f ifTrue) (← f ifFalse) ty
  | .block locals expressions ty => return .block locals (← expressions.mapM f) ty
  | .lambda name parameters body returnType ty =>
    return .lambda name parameters (← f body) returnType ty
  | .call receiver method arguments =>
    return .call (← receiver.mapM f) method (← arguments.mapM f)
  | .invoke target arguments ty => return .invoke (← f target) (← arguments.mapM f) ty
  | .member receiver info => return .member (← receiver.mapM f) info
  | .new creation => return .new (← creation.mapM f)
  | .newArray elementType expressions bounds =>
    return .newArray elementType (← expressions.mapM f) bounds
  | .memberInit creation bindings =>
    return .memberInit (← creation.mapM f) (← Binding.mapAllM f bindings)
  | .listInit creation items => return .listInit (← creation.mapM f) (← items.mapM (·.mapM f))
  | .loop body breakTarget continueTarget => return .loop (← f body) breakTarget continueTarget
  | .jump kind target value ty => return .jump kind target (← value.mapM f) ty
  | .label target value => return .label target (← value.mapM f)
  | .switch value cases defaultBody ty =>
    return .switch (← f value) (← cases.mapM (·.mapM f)) (← defaultBody.mapM f) ty
  | .try body handlers cleanup fault ty =>
    return .try (← f body) (← handlers.mapM (·.mapM f)) (← cleanup.mapM f) (← fault.mapM f) ty
  | .default ty => return .default ty
  | .index object indexer arguments ty =>
    return .index (← f object) indexer (← arguments.mapM f) ty
  | .typeTest expression operand exact => return .typeTest (← f expression) operand exact
  | .comment text => return .comment text
  | .extension name ty display operands =>
    return .extension name ty display (← operands.mapM f)

end MapM

end TreeScribe
