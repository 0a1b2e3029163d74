import TreeScribe.Render.Literal

/-! Calls, invocations, members, indexing and argument lists. -/
namespace TreeScribe.Render

open Atoms

variable (env : Env)

/-! ### Argument lists -/

/-- Items on one line are too long, or one that is not the last spans several lines. -/
def listWraps (items : List Doc) : Bool :=
  let short := items.filter (!·.isMultiLine)
  let length := @List.sum Nat _ Zero.ofOfNat0 (short.map (·.size)) + 2 * (items.length - 1)
  lineLimit < length || items.dropLast.any (·.isMultiLine)

/-- Items that each start a line, with commas between them. -/
def itemLines : List Doc → Atoms
  | [] => []
  | [d] => newline ++ d.atoms
  | d :: ds => newline ++ d.atoms ++ text "," ++ itemLines ds

/-- `(a, b)`, or one item a line. -/
def parenthesizedList (items : List Doc) : Doc :=
  let inner := if listWraps items then indented (itemLines items) else separated ", " items
  { kind := .call, ty := .void, atoms := parens inner }

/-- What declares the variable of an output argument, if this argument does. -/
def outputAtoms (c : Child) : Rendering Atoms := do
  match env.analysis.target? c.1.label with
  | none => return []
  | some slot =>
    if ← env.analysis.scopes.declaresOutput slot then
      match c.1.asParameter? with
      | some v =>
        if env.settings.choice .explicitTypes then return declaring slot (env.typeName v.ty ++ space)
        else return declaring slot (keyword "var" ++ space)
      | none => return []
    else return []

def argument (c : Child) (mode : PassingMode) : Rendering Doc := do
  match mode with
  | .value => value c
  | .ref =>
    let d ← value c
    return { kind := c.1.kind, ty := c.1.ty, atoms := keyword "ref" ++ space ++ d.atoms }
  | .out =>
    let declaring ← outputAtoms env c
    let d ← value c
    return { kind := c.1.kind, ty := c.1.ty
             atoms := keyword "out" ++ space ++ declaring ++ d.atoms }

/-- An array of elements, as opposed to one of a size. -/
def isElementArray (e : Expr) : Bool :=
  match e.form with
  | .newArray _ _ bounds => !bounds
  | _ => false

/-- The arguments with the modes of their parameters. An array of elements that is passed last
for the remaining arguments is passed element by element. -/
def arguments : List Child → List ParameterInfo → Rendering (List Doc)
  | [], _ => return []
  | c :: cs, [] => do
    let d ← argument env c .value
    return d :: (← arguments cs [])
  | c :: cs, p :: ps => do
    if p.isParams && cs.isEmpty && isElementArray c.1 then c.2.elements
    else
      let d ← argument env c p.mode
      return d :: (← arguments cs ps)

def argumentList (args : List Child) (parameters : List ParameterInfo) : Rendering Doc := do
  return parenthesizedList (← arguments env args parameters)

/-- `[a, b]` -/
def indexList (args : List Child) : Rendering Doc := do
  let args ← values args
  return { kind := .index, ty := .void, atoms := bracketed "[" "]" (separated ", " args) }

/-! ### Calls -/

/-- `<A, B>` if the generic arguments are written. -/
def genericArguments (m : MethodInfo) : Atoms :=
  if env.settings.writesGenericArgs m then
    text "<" ++ Atoms.separated ", " (m.genericArgs.map env.typeName) ++ text ">"
  else []

/-- What stands before the point, with the arguments and parameters that are left. An extension
method is called on its first argument. -/
def receiverOf (receiver : Option Child) (m : MethodInfo) (args : List Child) :
    Rendering (Atoms × List Child × List ParameterInfo) := do
  let isPassed := m.isExtension && receiver.isNone
  let parameters := if isPassed then m.parameters.drop 1 else m.parameters
  match receiver, m.isExtension, args with
  | some c, _, args => return ((← operand c Level.primary).atoms, args, parameters)
  | none, true, c :: args => return ((← operand c Level.primary).atoms, args, parameters)
  | none, _, args => return (env.typeName m.declaring, args, parameters)

def methodCall (subject : Atoms) (m : MethodInfo) (args : List Child)
    (parameters : List ParameterInfo) : Rendering Atoms := do
  let list ← argumentList env args parameters
  return subject ++ text "." ++ methodName m.name ++ genericArguments env m ++ list.atoms

/-- A call of an accessor is written as its property, and one of `Item` as indexing. -/
def callAtoms (subject : Atoms) (m : MethodInfo) (args : List Child)
    (parameters : List ParameterInfo) : Rendering Atoms := do
  match m.property? with
  | none => methodCall env subject m args parameters
  | some property =>
    if m.isGetter && args.isEmpty then return subject ++ text "." ++ text property
    else if m.isGetter && property == "Item" then return subject ++ (← indexList args).atoms
    else
      match m.isSetter, args.getLast? with
      | true, some last =>
        let lead ←
          if property == "Item" then do
            let list ← indexList args.dropLast
            pure list.atoms
          else pure (text "." ++ text property)
        let d ← value last
        return subject ++ lead ++ operator Level.lambda " = " ++ d.atoms
      | _, _ => methodCall env subject m args parameters

def call (receiver : Option Child) (m : MethodInfo) (args : List Child) : Rendering Doc := do
  let ty := m.closedReturnType
  if env.settings.writesConcat m then
    let parts ← args.mapM (operand · (Level.additive + 1))
    return { kind := .call, ty
             atoms := joinedBy (operator Level.additive " + ") (parts.map (·.atoms)) }
  else
    let (subject, args, parameters) ← receiverOf env receiver m args
    return { kind := .call, ty, atoms := ← callAtoms env subject m args parameters }

def invoke (target : Child) (args : List Child) (ty : TypeRef) : Rendering Doc := do
  let subject ←
    if target.1.isLambda then do
      let d ← value target
      pure d.parenthesized
    else operand target Level.primary
  let list ← argumentList env args []
  return { kind := .invoke, ty
           atoms := subject.atoms ++ text "." ++ methodName "Invoke" ++ list.atoms }

/-! ### Members and indexing -/

/-- A member; one of captured variables is the variable, or its value. -/
def memberAccess (receiver : Option Child) (info : MemberInfo) : Rendering Doc := do
  let doc (atoms : Atoms) : Doc := { kind := .memberAccess, ty := info.memberType, atoms }
  match receiver with
  | none => return doc (env.typeName info.declaring ++ text "." ++ text info.name)
  | some c =>
    match c.1.form with
    | .constant ⟨.closure fields, _⟩ =>
      match fields.find? (·.name == info.name) with
      | some field =>
        if env.settings.choice .capturedValues then return literal env field.value field.ty
        else return doc (varName info.name)
      | none => return doc (varName info.name)
    | _ =>
      let d ← operand c Level.primary
      return doc (d.atoms ++ text "." ++ text info.name)

def index (object : Child) (args : List Child) (ty : TypeRef) : Rendering Doc := do
  let d ← operand object Level.primary
  let list ← indexList args
  return { kind := .index, ty, atoms := d.atoms ++ list.atoms }

end TreeScribe.Render
