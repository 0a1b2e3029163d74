import TreeScribe.Render.Tree
import TreeScribe.Source.Model

/-! The text of generated source. -/
namespace TreeScribe

open Atoms

/-! ### Methods -/

namespace MethodModel

/-- The lines of a documentation comment. -/
def summaryAtoms (summary : String) : Atoms :=
  token .comment "/// <summary>" ++
    (Text.lines summary.toList).flatMap (fun line =>
      newline ++ token .comment ("/// " ++ String.ofList (Text.trimEnd line))) ++
    newline ++ token .comment "/// </summary>" ++ newline

def parameterAtoms (settings : Settings) (v : Variable) : Atoms :=
  Atoms.when v.isByRef (keyword "ref" ++ space) ++ typeName settings.typeNames v.ty ++ space ++
    varName v.writtenName

/-- `public int Name(int x)` -/
def signature (settings : Settings) (m : MethodModel) : Atoms :=
  keyword m.visibility.text ++ space ++ typeName settings.typeNames m.returns ++ space ++
    methodName m.name ++
    parens (Atoms.separated ", " (m.parameters.map (parameterAtoms settings)))

/-- The body of a method in braces. -/
def bodyDoc (settings : Settings) (calls : List (Nat × ExtractedCall)) (m : MethodModel) : Doc :=
  let analysis := Analysis.ofMethodBody settings m.body m.returnsValue
  let env : Env := { settings, analysis, calls }
  ((env.body m.body m.returnsValue).run []).1.braced

def atoms (settings : Settings) (calls : List (Nat × ExtractedCall)) (m : MethodModel) : Atoms :=
  (m.summary.map summaryAtoms).getD [] ++ signature settings m ++ newline ++
    (bodyDoc settings calls m).atoms

end MethodModel

/-! ### Classes and files -/

namespace ClassModel

/-- The methods with blank lines between them. -/
def methodAtoms (settings : Settings) (c : ClassModel) : Atoms :=
  (newline ++ newline).intercalate (c.methods.map (·.atoms settings c.calls))

def header (settings : Settings) (c : ClassModel) : Atoms :=
  let interfaces := c.interfaces.map (typeName settings.typeNames)
  keyword "public" ++ space ++ keyword "class" ++ space ++ token .typeName c.name ++
    Atoms.when (!interfaces.isEmpty) (text " : " ++ Atoms.separated ", " interfaces)

def atoms (settings : Settings) (c : ClassModel) : Atoms :=
  c.header settings ++ newline ++
    bracketed "\x7b" "\x7d" (indented (newline ++ c.methodAtoms settings) ++ newline)

end ClassModel

namespace SourceModel

def usingAtoms (space : String) : Atoms :=
  keyword "using" ++ Atoms.space ++ text space ++ text ";" ++ newline

def atoms (settings : Settings) (s : SourceModel) : Atoms :=
  let classes := (newline ++ newline).intercalate (s.classes.map (·.atoms settings))
  s.usings.flatMap usingAtoms ++ Atoms.when (!s.usings.isEmpty) newline ++
    keyword "namespace" ++ space ++ text s.nameSpace ++ newline ++
    bracketed "\x7b" "\x7d" (indented (newline ++ classes) ++ newline)

end SourceModel

/-- The marked-up text of atoms. -/
def Settings.layOut (settings : Settings) (as : Atoms) : String :=
  (as.write { format := settings.format, indent := settings.indent }).text

end TreeScribe
