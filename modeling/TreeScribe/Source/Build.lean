import TreeScribe.Source.Writer

/-! Source generation.

Names are checked before any tree is looked at. Then each method body is analysed once for the
blocks that become private methods, and only when all names are settled the text is written. -/
namespace TreeScribe

/-! ### Methods -/

/-- A method body taken apart. -/
structure ParsedMethod where
  summary : Option String := none
  parameters : List Variable := []
  returns : TypeRef
  body : Expr

namespace ParsedMethod

/-- Comments and then a lambda, and nothing else. -/
def isAnnotated (expressions : List Expr) : Bool :=
  expressions.getLast?.any (·.isLambda) && expressions.dropLast.all (·.isComment) &&
    1 < expressions.length

/-- A lambda, with the text that documents it. -/
def ofLambda? (e : Expr) (summary : Option String) : Option ParsedMethod :=
  match e.form with
  | .lambda _ parameters body returnType _ => some ⟨summary, parameters, returnType, body⟩
  | _ => none

/-- The lambda that one comment documents. -/
def ofAnnotated (expressions : List Expr) : Except SourceError ParsedMethod :=
  match expressions with
  | [note, lambda] =>
    match note.form with
    | .comment text =>
      match ofLambda? lambda (some text) with
      | some m => return m
      | none => throw (.unsupported .orphan)
    | _ => throw (.unsupported .orphan)
  | _ => throw (.unsupported .several)

/-- A lambda becomes a method with its parameters, and a comment before it its summary. Any
other tree becomes a method without parameters. -/
def ofExpr (e : Expr) : Except SourceError ParsedMethod :=
  let plain : ParsedMethod := { returns := e.ty, body := e }
  match e.form with
  | .lambda _ _ _ _ _ => return (ofLambda? e none).getD plain
  | .block locals expressions _ =>
    if locals.isEmpty && isAnnotated expressions then ofAnnotated expressions
    else if expressions.getLast?.any (·.isComment) then throw (.unsupported .orphan)
    else return plain
  | _ => return plain

/-- A summary of its own comes before one from a comment. -/
def ofPlan (m : MethodPlan) : Except SourceError ParsedMethod := do
  let parsed ← ofExpr m.body
  return { parsed with summary := m.summary.or parsed.summary }

end ParsedMethod

/-! ### Extracted methods -/

/-- A block taken out of a method, before it has a name. -/
structure Extraction where
  node : Nat
  parameters : List Variable
  returns : TypeRef
  body : Expr

namespace Extraction

def ofBlock (a : Analysis) (b : ExtractedBlock) : Extraction where
  node := b.block.label
  parameters := (a.escaped b).map fun e => ⟨e.key.name, e.key.ty, e.isAssigned⟩
  returns := b.block.ty
  body := b.block

/-- The extractions of analyses in a row, each block once. -/
def distinct : (seen : List Nat) → List Extraction → List Extraction
  | _, [] => []
  | seen, x :: xs =>
    if seen.contains x.node then distinct seen xs else x :: distinct (x.node :: seen) xs

def call (x : Extraction) (name : String) : Nat × ExtractedCall :=
  (x.node, { name, arguments := x.parameters.map fun v => (v.writtenName, v.isByRef) })

def model (x : Extraction) (name : String) : MethodModel :=
  { name, visibility := .hidden, summary := none, parameters := x.parameters
    returns := x.returns, body := x.body }

end Extraction

/-! ### Classes -/

namespace ClassPlan

def givenNames (c : ClassPlan) : List String := c.methods.filterMap (·.name)

def validate (c : ClassPlan) : Except SourceError Unit := do
  c.name.forM (validateName .ofClass)
  c.givenNames.forM (validateName .ofMethod)
  ensureUnique .ofMethod c.givenNames

/-- The name that a method has before defaults are numbered: its own, or that of the interface
method it implements. -/
def slot (c : ClassPlan) (plan : MethodPlan) (m : ParsedMethod) : Except SourceError NameSlot := do
  let given ←
    match plan.name with
    | some name => pure (some name)
    | none => do
      let found ← Interface.find? c.interfaces (m.parameters.map (·.ty)) m.returns
      pure (found.map (·.2.name))
  return ⟨given, defaultMethodName m.returns⟩

/-- The types that the signatures of a class write. -/
def signatureTypes (interfaces : List TypeRef) (methods : List MethodModel) : List TypeRef :=
  interfaces ++ methods.flatMap fun m => m.returns :: m.parameters.map (·.ty)

/-- The class and the namespaces it needs. -/
def build (settings : Settings) (c : ClassPlan) (name : String) :
    Except SourceError (ClassModel × List String) := do
  let parsed ← c.methods.mapM ParsedMethod.ofPlan
  let slots ← (c.methods.zip parsed).mapM fun (plan, m) => c.slot plan m
  let analyses := parsed.map fun m => Analysis.ofMethodBody settings m.body (!m.returns.isVoid)
  let extractions :=
    Extraction.distinct [] (analyses.flatMap fun a => a.extracted.map (Extraction.ofBlock a))
  let names :=
    NameSlot.resolve (slots ++ extractions.map fun x => ⟨none, defaultMethodName x.returns⟩)
  ensureUnique .ofMethod names
  let publicMethods := (parsed.zip names).map fun (m, name) =>
    { name, visibility := .exported, summary := m.summary, parameters := m.parameters
      returns := m.returns, body := m.body : MethodModel }
  let privateNames := names.drop parsed.length
  let methods := publicMethods ++ extractions.zipWith Extraction.model privateNames
  let calls := extractions.zipWith Extraction.call privateNames
  let interfaces := c.interfaces.map (·.ty)
  let written :=
    if settings.choice .qualifyTypes then []
    else (signatureTypes interfaces methods).flatMap TypeRef.requiredNamespaces
  return ({ name, interfaces, methods, calls },
    analyses.flatMap Analysis.requiredNamespaces ++ written)

end ClassPlan

/-! ### Files -/

namespace SourcePlan

/-- Checks the names that are given. -/
def validate (p : SourcePlan) : Except SourceError Unit := do
  validateName .ofNamespace p.nameSpace
  p.classes.forM ClassPlan.validate
  ensureUnique .ofClass (p.classes.filterMap (·.name))

/-- The names of the classes, each of which must have a method. -/
def classNames (p : SourcePlan) : Except SourceError (List String) := do
  if p.classes.isEmpty then throw .noClasses
  let names := NameSlot.resolve (p.classes.map fun c => ⟨c.name, defaultClassName⟩)
  ensureUnique .ofClass names
  match (p.classes.zip names).find? (·.1.methods.isEmpty) with
  | some (_, name) => throw (.noMethods name)
  | none => return names

/-- Generates source. -/
def build (settings : Settings) (p : SourcePlan) : Except SourceError SourceModel := do
  p.validate
  let names ← p.classNames
  let built ← (p.classes.zip names).mapM fun (c, name) => c.build settings name
  let namespaces := ({} : NamespaceSet).addAll (built.flatMap (·.2))
  return { nameSpace := p.nameSpace, usings := namespaces.sorted, classes := built.map (·.1) }

/-- Whether the process stops before the source is written or the message is there that says why it is not. -/
def overflows (settings : Settings) (p : SourcePlan) : Bool :=
  match p.build settings with
  | .error e => e.overflows
  | .ok model => (model.atoms settings).overflows settings.typeNames

/-- A plan for one method in one class. -/
def ofExpr (e : Expr) : SourcePlan := { classes := [{ methods := [{ body := e }] }] }

end SourcePlan

namespace Source

/-- The text of a source file. -/
def file (settings : Settings) (p : SourcePlan) : Except SourceError String := do
  return settings.layOut ((← p.build settings).atoms settings)

/-- The same, unless the process stops at the name of a type. -/
def file? (settings : Settings) (p : SourcePlan) : Option (Except SourceError String) :=
  if p.overflows settings then none else some (file settings p)

/-- The text of a file with one method for a tree. -/
def fileOf (settings : Settings) (e : Expr) : Except SourceError String :=
  file settings (.ofExpr e)

/-- The text of the class alone. -/
def classOf (settings : Settings) (e : Expr) : Except SourceError String := do
  let model ← (SourcePlan.ofExpr e).build settings
  return (model.classes.head?.map fun c => settings.layOut (c.atoms settings)).getD ""

/-- The text of the method and those taken out of it. -/
def methodOf (settings : Settings) (e : Expr) : Except SourceError String := do
  let model ← (SourcePlan.ofExpr e).build settings
  return (model.classes.head?.map fun c => settings.layOut (c.methodAtoms settings)).getD ""

end Source
end TreeScribe
