import TreeScribe.Scope.Basic
import TreeScribe.Text.Quoted
import TreeScribe.Tree.Shape
import TreeScribe.TypeRef.Name

/-! How trees are written: ten choices of style, the indentation, the output format, a namer for
anonymous types and custom renderers for kinds of nodes. -/
namespace TreeScribe

/-- A choice of style that is on or off. -/
inductive Choice where
  /-- Write types with their namespaces. -/
  | qualifyTypes
  /-- Declare variables with their types and not with `var`. -/
  | explicitTypes
  /-- Always write the generic arguments of methods. -/
  | explicitGenerics
  /-- Declare output variables where they are passed. -/
  | inlineOutputs
  /-- Write lambda parameters that are not used as `_`. -/
  | discardUnused
  /-- Write element types of arrays that could be left out. -/
  | arrayTypes
  | lambdaTypes
  /-- Mark quoted lambdas by a comment. -/
  | quoteComments
  /-- Write the values of captured variables in place of their names. -/
  | capturedValues
  /-- Write string concatenations as calls and not with `+`. -/
  | concatCalls
deriving DecidableEq, Repr

namespace Choice

def all : List Choice :=
  [.qualifyTypes, .explicitTypes, .explicitGenerics, .inlineOutputs, .discardUnused, .arrayTypes,
    .lambdaTypes, .quoteComments, .capturedValues, .concatCalls]

/-- The name in configurations. -/
def name : Choice → String
  | .qualifyTypes => "fully_qualify_type_names"
  | .explicitTypes => "use_explicit_type_names"
  | .explicitGenerics => "use_explicit_generic_parameters"
  | .inlineOutputs => "declare_output_parameters_inline"
  | .discardUnused => "discard_unused_parameters"
  | .arrayTypes => "show_implicit_array_types"
  | .lambdaTypes => "show_lambda_parameter_types"
  | .quoteComments => "show_quoted_lambda_comments"
  | .capturedValues => "show_captured_values"
  | .concatCalls => "show_string_concat_calls"

end Choice

/-- Work that writes declarations; it keeps the variables declared so far. -/
abbrev Rendering := StateM (List Slot)

/-- Writes a node in place of the built-in renderer, unless it declines. It may ask for the text of
each child as a value and for the names of types, and for nothing else: the analysis, the other
positions of a child and trees that are no children of the node are out of its reach. -/
abbrev CustomRenderer :=
  Expr → (children : List (Rendering String)) → (typeName : TypeRef → String) →
    Rendering (Option String)

structure Settings where
  choice : Choice → Bool := fun _ => false
  indent : String := "    "
  format : Format := .plain
  anonymousNamer : Option (TypeRef → String) := none
  /-- At most one renderer for each kind. -/
  custom : List (NodeKind × CustomRenderer) := []

namespace Settings

/-- Turns a choice on. -/
def withChoice (s : Settings) (c : Choice) : Settings :=
  { s with choice := fun d => d == c || s.choice d }

def withIndent (s : Settings) (indent : String) : Settings := { s with indent := indent }

def withFormat (s : Settings) (format : Format) : Settings := { s with format := format }

/-- Sets the renderer of a kind, in place of the one it had. -/
def withCustom (s : Settings) (kind : NodeKind) (renderer : CustomRenderer) : Settings :=
  { s with custom := s.custom.filter (·.1 != kind) ++ [(kind, renderer)] }

def custom? (s : Settings) (kind : NodeKind) : Option CustomRenderer := s.custom.lookup kind

def typeNames (s : Settings) : TypeNameOptions where
  qualify := s.choice .qualifyTypes
  anonymousNamer := s.anonymousNamer

def typeName (s : Settings) (t : TypeRef) : String := t.friendlyName s.typeNames

/-! ### Description -/

def boolText (b : Bool) : String := if b then "true" else "false"

def formatText : Format → String
  | .plain => "PlainTextFormatter"
  | .html => "HtmlFormatter"

/-- The settings on one line. -/
def describe (s : Settings) : String :=
  let kinds := (s.custom.map (·.1.name)).mergeSort (· ≤ ·)
  let fields :=
    Choice.all.map (fun c => c.name ++ ": " ++ boolText (s.choice c)) ++
      ["indent: " ++ Text.quoted s.indent, "formatter: " ++ formatText s.format,
        "anonymous_type_namer: " ++ boolText s.anonymousNamer.isSome,
        "custom_translators: [" ++ ", ".intercalate (kinds.map Text.quoted) ++ "]"]
  "TranslationSettings \x7b " ++ ", ".intercalate fields ++ " \x7d"

end Settings
end TreeScribe
