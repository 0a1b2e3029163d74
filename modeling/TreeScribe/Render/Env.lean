import TreeScribe.Analysis.Basic
import TreeScribe.Layout.Doc
import TreeScribe.Tree.Position

/-! What rendering a node can refer to: the settings, the analysis of the tree, the calls that
stand for extracted blocks, and what rendering each child gives. -/
namespace TreeScribe

/-- How a block that became a method is called. -/
structure ExtractedCall where
  name : String
  /-- The names of the variables that are passed, and whether by reference. -/
  arguments : List (String × Bool)
deriving DecidableEq, Repr

structure Env where
  settings : Settings
  analysis : Analysis
  /-- The calls of extracted blocks, by the number of the block. -/
  calls : List (Nat × ExtractedCall) := []

namespace Env

def typeName (env : Env) (t : TypeRef) : Atoms := Atoms.typeName env.settings.typeNames t

/-- The text of a document without markup. -/
def plainText (env : Env) (d : Doc) : String := (d.written .plain env.settings.indent).raw

end Env

/-- What can be made of a node. -/
structure Renderer where
  inPosition : Position → Rendering Doc
  /-- The statements of a body that gives a value or not, without braces. -/
  body : (returns : Bool) → Rendering Doc
  /-- A conditional that follows an `else`. -/
  chained : (returns : Bool) → Rendering Doc
  /-- A label at the end of a block, whose value is returned or not. -/
  landing : (returns : Bool) → Rendering Doc
  /-- The elements of an array, to be passed one by one. -/
  elements : Rendering (List Doc)

namespace Render

/-- A child with what can be made of it. -/
abbrev Child := Expr × Renderer

def value (c : Child) : Rendering Doc := c.2.inPosition .value

def values (cs : List Child) : Rendering (List Doc) := cs.mapM value

/-- The child in parentheses if it binds more loosely than `level`. -/
def operand (c : Child) (level : Level) : Rendering Doc := do
  let d ← value c
  return if c.1.level < level then d.parenthesized else d

/-- Documents with a text between them. -/
def separated (separator : String) (ds : List Doc) : Atoms :=
  Atoms.separated separator (ds.map (·.atoms))

/-- Lines longer than this are broken. -/
def lineLimit : Nat := 100

end Render
end TreeScribe
