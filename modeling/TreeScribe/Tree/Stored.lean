import TreeScribe.Json.Printer
import TreeScribe.Json.Reader
import TreeScribe.Tree.Shape
import TreeScribe.TypeRef.Stored

/-! The stored form of trees.

A node is an object whose field `node` tells its form, beside the fields of that form. Writing
gives every field; reading leaves out what has a default. `Tree.parse?` reads a text and refuses
values nested too deeply, and `Tree.text` writes one. -/
namespace TreeScribe

open Json

/-! ### Members -/

namespace PassingMode

def all : List PassingMode := [.value, .ref, .out]

def storedName : PassingMode → String
  | .value => "value"
  | .ref => "ref"
  | .out => "out"

end PassingMode

namespace ParameterInfo

def toJson (p : ParameterInfo) : Json :=
  .object [("name", .string p.name), ("ty", p.ty.toJson),
    ("mode", .string p.mode.storedName), ("is_params", .bool p.isParams)]

def ofJson? (j : Json) : Option ParameterInfo := do
  return {
    name := ← field? j "name" asString?
    ty := ← field? j "ty" TypeRef.ofJson?
    mode := ← defaulted? j "mode" .value (oneOf? PassingMode.storedName PassingMode.all)
    isParams := ← defaulted? j "is_params" false asBool? }

end ParameterInfo

namespace MethodInfo

def toJson (m : MethodInfo) : Json :=
  .object [("name", .string m.name), ("declaring_type", m.declaring.toJson),
    ("return_type", m.returnType.toJson),
    ("parameters", Json.ofList ParameterInfo.toJson m.parameters),
    ("is_static", .bool m.isStatic), ("is_extension", .bool m.isExtension),
    ("generic_parameters", Json.ofList TypeRef.toJson m.genericParameters),
    ("generic_args", Json.ofList TypeRef.toJson m.genericArgs)]

def ofJson? (j : Json) : Option MethodInfo := do
  return {
    name := ← field? j "name" asString?
    declaring := ← field? j "declaring_type" TypeRef.ofJson?
    returnType := ← field? j "return_type" TypeRef.ofJson?
    parameters := ← defaulted? j "parameters" [] (list? ParameterInfo.ofJson?)
    isStatic := ← defaulted? j "is_static" false asBool?
    isExtension := ← defaulted? j "is_extension" false asBool?
    genericParameters := ← defaulted? j "generic_parameters" [] (list? TypeRef.ofJson?)
    genericArgs := ← defaulted? j "generic_args" [] (list? TypeRef.ofJson?) }

end MethodInfo

namespace ConstructorInfo

def toJson (c : ConstructorInfo) : Json :=
  .object [("declaring_type", c.declaring.toJson),
    ("parameters", Json.ofList ParameterInfo.toJson c.parameters)]

def ofJson? (j : Json) : Option ConstructorInfo := do
  return {
    declaring := ← field? j "declaring_type" TypeRef.ofJson?
    parameters := ← defaulted? j "parameters" [] (list? ParameterInfo.ofJson?) }

end ConstructorInfo

namespace MemberKind

def all : List MemberKind := [.field, .property]

def storedName : MemberKind → String
  | .field => "field"
  | .property => "property"

end MemberKind

namespace MemberInfo

def toJson (m : MemberInfo) : Json :=
  .object [("name", .string m.name), ("declaring_type", m.declaring.toJson),
    ("member_type", m.memberType.toJson), ("kind", .string m.kind.storedName),
    ("is_static", .bool m.isStatic)]

def ofJson? (j : Json) : Option MemberInfo := do
  return {
    name := ← field? j "name" asString?
    declaring := ← field? j "declaring_type" TypeRef.ofJson?
    memberType := ← field? j "member_type" TypeRef.ofJson?
    kind := ← field? j "kind" (oneOf? MemberKind.storedName MemberKind.all)
    isStatic := ← defaulted? j "is_static" false asBool? }

end MemberInfo

/-! ### Constants -/

namespace ConstantValue

def tagged (kind : String) (value : Json) : Json :=
  .object [("kind", .string kind), ("value", value)]

mutual

def toJson : ConstantValue → Json
  | .null => .object [("kind", .string "null")]
  | .bool b => tagged "bool" (.bool b)
  | .int n => tagged "int" (Json.ofInt n)
  | .uint n => tagged "u_int" (Json.ofNat n)
  | .float x => tagged "float" (.number (.real x))
  | .decimal text => tagged "decimal" (.string text)
  | .char c => tagged "char" (.string (String.singleton c))
  | .string s => tagged "string" (.string s)
  | .type t => tagged "type" t.toJson
  | .enumMember name => tagged "enum_member" (.string name)
  | .closure fields => tagged "closure" (.array (fieldsToJson fields))
  | .object text => tagged "object" (.string text)

def fieldsToJson : List (Captured ConstantValue) → List Json
  | [] => []
  | ⟨name, ty, value⟩ :: fields =>
    .object [("name", .string name), ("ty", ty.toJson), ("value", toJson value)] ::
      fieldsToJson fields

end

/-- Reads a constant nested at most `fuel` deep. -/
def ofJsonUpTo? : (fuel : Nat) → Json → Option ConstantValue
  | 0, _ => none
  | fuel + 1, j => do
    let captured (f : Json) : Option (Captured ConstantValue) := do
      return {
        name := ← field? f "name" asString?
        ty := ← field? f "ty" TypeRef.ofJson?
        value := ← field? f "value" (ofJsonUpTo? fuel) }
    match ← field? j "kind" asString? with
    | "null" => if (← optional? j "value" some).isNone then some .null else none
    | "bool" => return .bool (← field? j "value" asBool?)
    | "int" => return .int (← field? j "value" asSigned?)
    | "u_int" => return .uint (← field? j "value" (asNatBelow? UInt64.size))
    | "float" => return .float (← field? j "value" asReal?)
    | "decimal" => return .decimal (← field? j "value" asString?)
    | "char" => return .char (← field? j "value" char?)
    | "string" => return .string (← field? j "value" asString?)
    | "type" => return .type (← field? j "value" TypeRef.ofJson?)
    | "enum_member" => return .enumMember (← field? j "value" asString?)
    | "closure" => return .closure (← field? j "value" (list? captured))
    | "object" => return .object (← field? j "value" asString?)
    | _ => none

def ofJson? (j : Json) : Option ConstantValue := ofJsonUpTo? j.depth j

end ConstantValue

/-! ### Parts of nodes -/

namespace Variable

def fields (v : Variable) : List (String × Json) :=
  [("name", .string v.name), ("ty", v.ty.toJson), ("is_by_ref", .bool v.isByRef)]

def toJson (v : Variable) : Json := .object v.fields

def ofJson? (j : Json) : Option Variable := do
  return {
    name := ← field? j "name" asString?
    ty := ← field? j "ty" TypeRef.ofJson?
    isByRef := ← defaulted? j "is_by_ref" false asBool? }

end Variable

namespace Target

def toJson (t : Target) : Json :=
  .object [("name", Json.ofOption .string t.name), ("ty", t.ty.toJson), ("id", Json.ofNat t.id)]

def ofJson? (j : Json) : Option Target := do
  return {
    name := ← optional? j "name" asString?
    ty := ← field? j "ty" TypeRef.ofJson?
    id := ← defaulted? j "id" 0 (asNatBelow? UInt32.size) }

end Target

namespace JumpKind

def all : List JumpKind := [.goto, .return, .break, .continue]

def storedName : JumpKind → String
  | .goto => "goto"
  | .return => "return"
  | .break => "break"
  | .continue => "continue"

end JumpKind

section Parts

variable {α : Type} (write : α → Json) (read : Json → Option α)

namespace Creation

def fields (n : Creation α) : List (String × Json) :=
  [("ty", n.ty.toJson), ("constructor", Json.ofOption ConstructorInfo.toJson n.constructor),
    ("arguments", Json.ofList write n.arguments), ("members", Json.ofList .string n.members)]

def ofJson? (j : Json) : Option (Creation α) := do
  return {
    ty := ← field? j "ty" TypeRef.ofJson?
    constructor := ← optional? j "constructor" ConstructorInfo.ofJson?
    arguments := ← defaulted? j "arguments" [] (list? read)
    members := ← defaulted? j "members" [] (list? asString?) }

end Creation

namespace ElementInit

def toJson (i : ElementInit α) : Json :=
  .object [("add_method", i.addMethod.toJson), ("arguments", Json.ofList write i.arguments)]

def ofJson? (j : Json) : Option (ElementInit α) := do
  return {
    addMethod := ← field? j "add_method" MethodInfo.ofJson?
    arguments := ← field? j "arguments" (list? read) }

end ElementInit

namespace Binding

mutual

def toJson : Binding α → Json
  | .assignment m value =>
    .object [("binding", .string "assignment"), ("member", m.toJson),
      ("expression", write value)]
  | .nested m bindings =>
    .object [("binding", .string "member"), ("member", m.toJson),
      ("bindings", .array (allToJson bindings))]
  | .list m items =>
    .object [("binding", .string "list"), ("member", m.toJson),
      ("initializers", Json.ofList (ElementInit.toJson write) items)]

def allToJson : List (Binding α) → List Json
  | [] => []
  | b :: bs => toJson b :: allToJson bs

end

/-- Reads a binding nested at most `fuel` deep. -/
def ofJsonUpTo? : (fuel : Nat) → Json → Option (Binding α)
  | 0, _ => none
  | fuel + 1, j => do
    let tag ← field? j "binding" asString?
    let m ← field? j "member" MemberInfo.ofJson?
    match tag with
    | "assignment" => return .assignment m (← field? j "expression" read)
    | "member" => return .nested m (← field? j "bindings" (list? (ofJsonUpTo? fuel)))
    | "list" => return .list m (← field? j "initializers" (list? (ElementInit.ofJson? read)))
    | _ => none

def ofJson? (j : Json) : Option (Binding α) := ofJsonUpTo? read j.depth j

end Binding

namespace SwitchCase

def toJson (c : SwitchCase α) : Json :=
  .object [("test_values", Json.ofList write c.tests), ("body", write c.body)]

def ofJson? (j : Json) : Option (SwitchCase α) := do
  return {
    tests := ← field? j "test_values" (list? read)
    body := ← field? j "body" read }

end SwitchCase

namespace Handler

def toJson (h : Handler α) : Json :=
  .object [("test", h.test.toJson), ("variable", Json.ofOption Variable.toJson h.caught),
    ("filter", Json.ofOption write h.filter), ("body", write h.body)]

def ofJson? (j : Json) : Option (Handler α) := do
  return {
    test := ← field? j "test" TypeRef.ofJson?
    caught := ← optional? j "variable" Variable.ofJson?
    filter := ← optional? j "filter" read
    body := ← field? j "body" read }

end Handler

/-! ### Nodes -/

namespace Form

/-- The name of the form in the field `node`. -/
def storedName : Form α → String
  | .constant _ => "constant"
  | .parameter _ => "parameter"
  | .binary _ _ _ _ _ => "binary"
  | .unary _ _ _ _ => "unary"
  | .conditional _ _ _ _ => "conditional"
  | .block _ _ _ => "block"
  | .lambda _ _ _ _ _ => "lambda"
  | .call _ _ _ => "call"
  | .invoke _ _ _ => "invoke"
  | .member _ _ => "member"
  | .new _ => "new"
  | .newArray _ _ _ => "new_array"
  | .memberInit _ _ => "member_init"
  | .listInit _ _ => "list_init"
  | .loop _ _ _ => "loop"
  | .jump _ _ _ _ => "goto"
  | .label _ _ => "label"
  | .switch _ _ _ _ => "switch"
  | .try _ _ _ _ _ => "try"
  | .default _ => "default"
  | .index _ _ _ _ => "index"
  | .typeTest _ _ _ => "type_binary"
  | .comment _ => "comment"
  | .extension _ _ _ _ => "extension"

/-- The fields of a form, beside `node`. -/
def fields : Form α → List (String × Json)
  | .constant c => [("value", c.value.toJson), ("ty", c.ty.toJson)]
  | .parameter v => v.fields
  | .binary op left right ty method =>
    [("op", .string (snakeCase op.name)), ("left", write left), ("right", write right),
      ("ty", ty.toJson), ("method", Json.ofOption MethodInfo.toJson method)]
  | .unary op operand ty method =>
    [("op", .string (snakeCase op.name)), ("operand", Json.ofOption write operand),
      ("ty", ty.toJson), ("method", Json.ofOption MethodInfo.toJson method)]
  | .conditional test ifTrue ifFalse ty =>
    [("test", write test), ("if_true", write ifTrue), ("if_false", write ifFalse),
      ("ty", ty.toJson)]
  | .block locals expressions ty =>
    [("variables", Json.ofList Variable.toJson locals),
      ("expressions", Json.ofList write expressions), ("ty", ty.toJson)]
  | .lambda name parameters body returnType ty =>
    [("name", Json.ofOption .string name),
      ("parameters", Json.ofList Variable.toJson parameters), ("body", write body),
      ("return_type", returnType.toJson), ("ty", ty.toJson)]
  | .call receiver method arguments =>
    [("instance", Json.ofOption write receiver), ("method", method.toJson),
      ("arguments", Json.ofList write arguments)]
  | .invoke target arguments ty =>
    [("target", write target), ("arguments", Json.ofList write arguments), ("ty", ty.toJson)]
  | .member receiver info =>
    [("instance", Json.ofOption write receiver), ("member", info.toJson)]
  | .new creation => creation.fields write
  | .newArray elementType expressions bounds =>
    [("element_type", elementType.toJson), ("expressions", Json.ofList write expressions),
      ("bounds", .bool bounds)]
  | .memberInit creation bindings =>
    [("new", .object (creation.fields write)),
      ("bindings", .array (Binding.allToJson write bindings))]
  | .listInit creation items =>
    [("new", .object (creation.fields write)),
      ("initializers", Json.ofList (ElementInit.toJson write) items)]
  | .loop body breakTarget continueTarget =>
    [("body", write body), ("break_label", Json.ofOption Target.toJson breakTarget),
      ("continue_label", Json.ofOption Target.toJson continueTarget)]
  | .jump kind target value ty =>
    [("kind", .string kind.storedName), ("target", target.toJson),
      ("value", Json.ofOption write value), ("ty", ty.toJson)]
  | .label target value =>
    [("target", target.toJson), ("default_value", Json.ofOption write value)]
  | .switch value cases defaultBody ty =>
    [("value", write value), ("cases", Json.ofList (SwitchCase.toJson write) cases),
      ("default_body", Json.ofOption write defaultBody), ("ty", ty.toJson)]
  | .try body handlers cleanup fault ty =>
    [("body", write body), ("handlers", Json.ofList (Handler.toJson write) handlers),
      ("finally", Json.ofOption write cleanup), ("fault", Json.ofOption write fault),
      ("ty", ty.toJson)]
  | .default ty => [("ty", ty.toJson)]
  | .index subject indexer arguments ty =>
    [("object", write subject), ("indexer", Json.ofOption MemberInfo.toJson indexer),
      ("arguments", Json.ofList write arguments), ("ty", ty.toJson)]
  | .typeTest expression operand exact =>
    [("expression", write expression), ("type_operand", operand.toJson),
      ("exact", .bool exact)]
  | .comment text => [("text", .string text)]
  | .extension name ty display operands =>
    [("name", .string name), ("ty", ty.toJson), ("display", Json.ofOption .string display),
      ("operands", Json.ofList write operands)]

def toJson (f : Form α) : Json := .object (("node", .string f.storedName) :: f.fields write)

/-- Reads a node whose children `read` reads. -/
def ofJson? (j : Json) : Option (Form α) := do
  let tag ← field? j "node" asString?
  let ty : Option TypeRef := field? j "ty" TypeRef.ofJson?
  let method : Option (Option MethodInfo) := optional? j "method" MethodInfo.ofJson?
  let arguments : Option (List α) := defaulted? j "arguments" [] (list? read)
  match tag with
  | "constant" => return .constant ⟨← field? j "value" ConstantValue.ofJson?, ← ty⟩
  | "parameter" => return .parameter (← Variable.ofJson? j)
  | "binary" =>
    return .binary (← field? j "op" (oneOf? (snakeCase ·.name) BinaryOp.all))
      (← field? j "left" read) (← field? j "right" read) (← ty) (← method)
  | "unary" =>
    return .unary (← field? j "op" (oneOf? (snakeCase ·.name) UnaryOp.all))
      (← optional? j "operand" read) (← ty) (← method)
  | "conditional" =>
    return .conditional (← field? j "test" read) (← field? j "if_true" read)
      (← field? j "if_false" read) (← ty)
  | "block" =>
    return .block (← defaulted? j "variables" [] (list? Variable.ofJson?))
      (← field? j "expressions" (list? read)) (← ty)
  | "lambda" =>
    return .lambda (← optional? j "name" asString?)
      (← defaulted? j "parameters" [] (list? Variable.ofJson?)) (← field? j "body" read)
      (← field? j "return_type" TypeRef.ofJson?) (← ty)
  | "call" =>
    return .call (← optional? j "instance" read) (← field? j "method" MethodInfo.ofJson?)
      (← arguments)
  | "invoke" => return .invoke (← field? j "target" read) (← arguments) (← ty)
  | "member" =>
    return .member (← optional? j "instance" read) (← field? j "member" MemberInfo.ofJson?)
  | "new" => return .new (← Creation.ofJson? read j)
  | "new_array" =>
    return .newArray (← field? j "element_type" TypeRef.ofJson?)
      (← field? j "expressions" (list? read)) (← defaulted? j "bounds" false asBool?)
  | "member_init" =>
    return .memberInit (← field? j "new" (Creation.ofJson? read))
      (← field? j "bindings" (list? (Binding.ofJson? read)))
  | "list_init" =>
    return .listInit (← field? j "new" (Creation.ofJson? read))
      (← field? j "initializers" (list? (ElementInit.ofJson? read)))
  | "loop" =>
    return .loop (← field? j "body" read) (← optional? j "break_label" Target.ofJson?)
      (← optional? j "continue_label" Target.ofJson?)
  | "goto" =>
    return .jump (← field? j "kind" (oneOf? JumpKind.storedName JumpKind.all))
      (← field? j "target" Target.ofJson?) (← optional? j "value" read) (← ty)
  | "label" =>
    return .label (← field? j "target" Target.ofJson?) (← optional? j "default_value" read)
  | "switch" =>
    return .switch (← field? j "value" read) (← field? j "cases" (list? (SwitchCase.ofJson? read)))
      (← optional? j "default_body" read) (← ty)
  | "try" =>
    return .try (← field? j "body" read)
      (← defaulted? j "handlers" [] (list? (Handler.ofJson? read)))
      (← optional? j "finally" read) (← optional? j "fault" read) (← ty)
  | "default" => return .default (← ty)
  | "index" =>
    return .index (← field? j "object" read) (← optional? j "indexer" MemberInfo.ofJson?)
      (← field? j "arguments" (list? read)) (← ty)
  | "type_binary" =>
    return .typeTest (← field? j "expression" read) (← field? j "type_operand" TypeRef.ofJson?)
      (← defaulted? j "exact" false asBool?)
  | "comment" => return .comment (← field? j "text" asString?)
  | "extension" =>
    return .extension (← field? j "name" asString?) (← ty) (← optional? j "display" asString?)
      (← defaulted? j "operands" [] (list? read))
  | _ => none

end Form

end Parts

namespace Node

variable {ι : Type}

def toJson (n : Node ι) : Json := n.fold fun _ f => f.toJson id

/-- The indented text of a tree. -/
def text (n : Node ι) : String := n.toJson.pretty

end Node

namespace Tree

/-- Reads a tree nested at most `fuel` deep. -/
def ofJsonUpTo? : (fuel : Nat) → Json → Option Tree
  | 0, _ => none
  | fuel + 1, j => (Form.ofJson? (ofJsonUpTo? fuel) j).map (.mk ())

/-- The deepest nesting that is read. -/
def nestingLimit : Nat := 127

/-- Reads a tree, unless it is nested too deeply. -/
def ofJson? (j : Json) : Option Tree :=
  if j.depth ≤ nestingLimit then ofJsonUpTo? j.depth j else none

/-- Reads the text of a tree. -/
def parse? (text : String) : Option Tree := (Json.parse? text).bind ofJson?

end Tree

/-- Reading the text of a tree gives a tree with the same text. -/
def Node.readsBack {ι : Type} (n : Node ι) : Bool :=
  (Tree.parse? n.text).any (·.text == n.text)

end TreeScribe
