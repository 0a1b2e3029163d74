import TreeScribe.Render.Env
import TreeScribe.Render.Name

/-! Blocks, lambdas and the statements of control flow. -/
namespace TreeScribe.Render

open Atoms

variable (env : Env)

/-! ### Statement lists -/

/-- Adds a name to the group of its type, which comes last if it is new. -/
def addToGroup (ty : TypeRef) (name : String) :
    List (TypeRef × List String) → List (TypeRef × List String)
  | [] => [(ty, [name])]
  | (t, names) :: groups =>
    if t = ty then (t, names ++ [name]) :: groups else (t, names) :: addToGroup ty name groups

/-- `int i, j;` lines for the variables declared at the top of a block, one for each type. -/
def declarations (node : Nat) : List Doc :=
  let groups := (env.analysis.blockDeclarations node).foldl
    (fun groups key => addToGroup key.ty (writtenName key.ty key.name) groups) []
  groups.map fun (ty, names) =>
    { kind := .block, ty := .void, isTerminated := true
      atoms := env.typeName ty ++ space ++ Atoms.separated ", " (names.map varName) ++ text ";" }

/-- A blank line stands between two statements: before a comment, and around one that spans
several lines, except after a comment. -/
def blankBetween (previous next : Doc) : Bool :=
  next.kind == .comment ||
    (previous.kind != .comment && (next.isMultiLine || previous.isMultiLine))

/-- The statements after another one. -/
def followed (previous : Doc) : List Doc → Atoms
  | [] => []
  | d :: ds =>
    newline ++ Atoms.when (blankBetween previous d) newline ++ d.atoms ++ followed d ds

def joined : List Doc → Atoms
  | [] => []
  | d :: ds => d.atoms ++ followed d ds

/-- The declarations after another one, and the statements after a blank line. -/
def followedDeclarations (previous : Doc) (statements : List Doc) : List Doc → Atoms
  | [] =>
    match statements with
    | [] => []
    | d :: ds => newline ++ newline ++ d.atoms ++ followed d ds
  | d :: ds =>
    newline ++ Atoms.when (blankBetween previous d) newline ++ d.atoms ++
      followedDeclarations d statements ds

/-- The statements one below the other, with a blank line after the declarations. -/
def joinStatements (ty : TypeRef) (declared statements : List Doc) : Doc :=
  let atoms :=
    match declared with
    | [] => joined statements
    | d :: ds => d.atoms ++ followedDeclarations d statements ds
  { kind := .block, ty, atoms, isTerminated := true
    endsWithJump := (declared ++ statements).getLast?.any (·.endsWithJump) }

/-! ### Blocks -/

def isLabel (e : Expr) : Bool :=
  match e.form with
  | .label _ _ => true
  | _ => false

/-- The last expression of a block, after statements of which the last may jump. -/
def lastStatement (position : Position) (afterJump : Bool) (c : Child) : Rendering Doc :=
  if position == .returning && isLabel c.1 then c.2.landing (!afterJump)
  else c.2.inPosition position

/-- The statements of a block after those rendered so far. Empty ones are left out. -/
def statementsFrom (last : Position) (afterJump : Bool) : List Child → Rendering (List Doc)
  | [] => return []
  | c :: cs => do
    if c.1.isEmpty then statementsFrom last afterJump cs
    else
      let d ← if cs.isEmpty then lastStatement last afterJump c else c.2.inPosition .statement
      if d.isEmpty then statementsFrom last afterJump cs
      else
        let d := d.terminated
        return d :: (← statementsFrom last d.endsWithJump cs)

def blockStatements (node : Nat) (expressions : List Child) (ty : TypeRef) (role : BlockRole) :
    Rendering Doc := do
  let declared := declarations env node
  let afterJump := declared.getLast?.any (·.endsWithJump)
  let statements ← statementsFrom (role.lastPosition ty) afterJump expressions
  return joinStatements ty declared statements

/-- A block in a list of statements: without variables its statements join the list. -/
def nestedBlock (node : Nat) (locals : List Variable) (expressions : List Child)
    (ty : TypeRef) (returns : Bool) : Rendering Doc := do
  let d ← blockStatements env node expressions ty (BlockRole.ofBody returns)
  return if locals.isEmpty then d else d.braced

/-- The call of the method that a block became. -/
def extractedCall (call : ExtractedCall) (ty : TypeRef) : Doc :=
  let passed := call.arguments.map fun (name, isRef) =>
    Atoms.when isRef (keyword "ref" ++ space) ++ varName name
  { kind := .block, ty
    atoms := methodName call.name ++ parens (Atoms.separated ", " passed) }

/-- A block as a value: its one expression, a call, or its statements in braces. -/
def valueBlock (node : Nat) (locals : List Variable) (expressions : List Child)
    (ty : TypeRef) : Rendering Doc := do
  let spelled : Rendering Doc :=
    match env.calls.lookup node with
    | some call => return extractedCall call ty
    | none => do return (← blockStatements env node expressions ty .value).braced
  match locals, expressions with
  | [], [only] => value only
  | _, _ => spelled

/-! ### Lambdas -/

def lambdaParameter (node : Nat) (typed : Bool) (v : Variable) : Atoms :=
  let discarded := env.settings.choice .discardUnused && !env.analysis.isParameterUsed node v
  Atoms.when typed
      (Atoms.when v.isByRef (keyword "ref" ++ space) ++ env.typeName v.ty ++ space) ++
    varName (if discarded then "_" else v.writtenName)

/-- `x`, `()`, `(x, y)` or `(int x, ref string y)` -/
def lambdaParameters (node : Nat) (parameters : List Variable) : Atoms :=
  let typed := env.settings.writesParameterTypes parameters
  let inner := Atoms.separated ", " (parameters.map (lambdaParameter env node typed))
  if typed || parameters.length != 1 then parens inner else inner

def lambda (node : Nat) (parameters : List Variable) (body : Child) (returnType ty : TypeRef) :
    Rendering Doc := do
  let lead := lambdaParameters env node parameters
  if body.1.rendersAsStatements then
    let d ← body.2.body (!returnType.isVoid)
    return { kind := .lambda, ty
             atoms := lead ++ operator Level.lambda " =>" ++ newline ++ enclosed node d.braced.atoms }
  else
    let d ← value body
    return { kind := .lambda, ty
             atoms := lead ++ operator Level.lambda " => " ++ enclosed node d.atoms }

/-! ### Conditionals -/

/-- `test ? a : b`, on three lines if it is long. -/
def ternary (test ifTrue ifFalse : Child) (ty : TypeRef) : Rendering Doc := do
  let test ← operand test Level.coalesce
  let ifTrue ← operand ifTrue Level.conditional
  let ifFalse ← operand ifFalse Level.conditional
  let rest :=
    if lineLimit < test.size + ifTrue.size + ifFalse.size + 6 then
      indented (newline ++ operator Level.conditional "? " ++ ifTrue.atoms ++ newline ++
        operator Level.conditional ": " ++ ifFalse.atoms)
    else
      operator Level.conditional " ? " ++ ifTrue.atoms ++ operator Level.conditional " : " ++
        ifFalse.atoms
  return { kind := .conditional, ty, atoms := test.atoms ++ rest }

/-- A conditional that continues a chain of `else if`. -/
def isChained (e : Expr) (returns : Bool) : Bool :=
  match e.form with
  | .conditional _ ifTrue ifFalse ty => !returns || !Node.isTernary ifTrue ifFalse ty
  | _ => false

/-- `if (test) { ... } else { ... }`. The branch comes first in the making. -/
def ifStatement (test ifTrue ifFalse : Child) (ty : TypeRef) (returns : Bool) :
    Rendering Doc := do
  let taken ← ifTrue.2.body returns
  let condition ← value test
  let lead := control "if" ++ bracketed " (" ")" condition.atoms ++ newline ++
    taken.braced.atoms
  let doc (atoms : Atoms) (jump : Bool) : Doc :=
    { kind := .conditional, ty, atoms, isTerminated := true, endsWithJump := jump }
  if ifFalse.1.isEmpty then return doc lead false
  else
    let lead := lead ++ newline ++ control "else"
    if isChained ifFalse.1 returns then
      let other ← ifFalse.2.chained returns
      return doc (lead ++ space ++ other.atoms) (taken.endsWithJump && other.endsWithJump)
    else
      let other ← ifFalse.2.body returns
      return doc (lead ++ newline ++ other.braced.atoms)
        (taken.endsWithJump && other.endsWithJump)

/-! ### Loops, jumps and labels -/

/-- `while (true) { ... }`, with the label after it if something jumps there. -/
def loop (node : Nat) (body : Child) (breakTarget : Option Target) : Rendering Doc := do
  let d ← body.2.body false
  let after :=
    match breakTarget.filter env.analysis.isJumpTarget with
    | some target => newline ++ labelLine target
    | none => []
  return { kind := .loop, ty := (breakTarget.map (·.ty)).getD .void, isTerminated := true
           atoms := control "while" ++ bracketed " (" ")" (keyword "true") ++ newline ++
             enclosed node d.braced.atoms ++ after }

def jump (kind : JumpKind) (target : Target) (result : Option Child) (ty : TypeRef) :
    Rendering Doc := do
  let doc (atoms : Atoms) : Doc := { kind := .goto, ty, atoms, endsWithJump := true }
  match kind with
  | .goto => return doc (control "goto" ++ space ++ text target.writtenName)
  | .break => return doc (control "break")
  | .continue => return doc (control "continue")
  | .return =>
    match result with
    | some c => return (← value c).returned
    | none => return doc (control "return")

/-- `name:` if something jumps there. At the end of a body its value is returned after it. -/
def label (target : Target) (defaultValue : Option Child) (returns : Bool) : Rendering Doc := do
  let shown := env.analysis.isJumpTarget target
  let lead := Atoms.when shown (labelLine target)
  match defaultValue.filter fun _ => returns with
  | some c =>
    let d ← value c
    return { kind := .label, ty := target.ty, isTerminated := true, endsWithJump := true
             atoms := lead ++ Atoms.when shown newline ++ d.returned.terminated.atoms }
  | none =>
    if shown then
      return { kind := .label, ty := target.ty, isTerminated := true, atoms := lead }
    else return .absent .label target.ty

/-! ### Switches -/

/-- The statements of a case, closed by a break unless they leave the switch anyway. -/
def caseBody (d : Doc) : Atoms :=
  indented (Atoms.when (!d.isEmpty) newline ++ d.atoms ++
    Atoms.when (!d.endsWithJump) (newline ++ control "break" ++ text ";"))

/-- The cases of a switch, with a blank line between them, and whether all of them jump. -/
def switchCases (returns : Bool) :
    (first : Bool) → List (SwitchCase Child) → Rendering (Atoms × Bool)
  | _, [] => return ([], true)
  | first, c :: cs => do
    let tests ← values c.tests
    let d ← c.body.2.body returns
    let lead := tests.flatMap fun t =>
      newline ++ control "case" ++ space ++ t.atoms ++ text ":"
    let (rest, jumps) ← switchCases returns false cs
    return (Atoms.when (!first) newline ++ lead ++ caseBody d ++ rest, d.endsWithJump && jumps)

def switch (node : Nat) (subject : Child) (cases : List (SwitchCase Child))
    (defaultBody : Option Child) (ty : TypeRef) (returns : Bool) : Rendering Doc := do
  let subject ← value subject
  let (caseAtoms, jumps) ← switchCases returns true cases
  let (defaultAtoms, jumps) ←
    match defaultBody with
    | none => pure ([], false)
    | some c => do
      let d ← c.2.body returns
      pure (Atoms.when (!cases.isEmpty) newline ++ newline ++ control "default" ++ text ":" ++
        caseBody d, jumps && d.endsWithJump)
  return { kind := .switch, ty, isTerminated := true, endsWithJump := jumps
           atoms := control "switch" ++ bracketed " (" ")" subject.atoms ++ newline ++
             enclosed node
               (bracketed "\x7b" "\x7d" (indented (caseAtoms ++ defaultAtoms) ++ newline)) }

/-! ### Exceptions -/

/-- `catch`, `catch (T)` or `catch (T name)` -/
def catchAtoms (h : Handler Child) : Atoms :=
  let catchesAll := h.test.isObject || h.test = .exception
  let named := h.caught.filter (env.analysis.isCaughtUsed h.body.1.label)
  control "catch" ++
    match named with
    | some v => bracketed " (" ")" (env.typeName h.test ++ space ++ varName v.writtenName)
    | none =>
      if catchesAll && h.filter.isNone then []
      else bracketed " (" ")" (env.typeName h.test)

/-- A handler and whether it jumps. The body comes before the filter in the making. -/
def catchHandler (returns : Bool) (h : Handler Child) : Rendering (Atoms × Bool) := do
  let d ← h.body.2.body returns
  let filter ←
    match h.filter with
    | some c => do
      let f ← value c
      pure (space ++ keyword "when" ++ bracketed " (" ")" f.atoms)
    | none => pure []
  return (newline ++ catchAtoms env h ++ filter ++ newline ++ d.braced.atoms, d.endsWithJump)

/-- A fault body, after which the exception goes on. -/
def faultBody (d : Doc) : Doc :=
  { kind := .block, ty := .void, isTerminated := true, endsWithJump := true
    atoms := d.atoms ++ newline ++ control "throw" ++ text ";" }

def attempt (tried : Child) (handlers : List (Handler Child)) (cleanup fault : Option Child)
    (ty : TypeRef) (returns : Bool) : Rendering Doc := do
  let d ← tried.2.body returns
  let handlers ← handlers.mapM (catchHandler env returns)
  let faultAtoms ←
    match fault with
    | some c => do
      let d ← c.2.body false
      pure (newline ++ control "catch" ++ newline ++ (faultBody d).braced.atoms)
    | none => pure []
  let cleanupAtoms ←
    match cleanup with
    | some c => do
      let d ← c.2.body false
      pure (newline ++ control "finally" ++ newline ++ d.braced.atoms)
    | none => pure []
  return { kind := .try, ty, isTerminated := true
           endsWithJump := d.endsWithJump && handlers.all (·.2)
           atoms := control "try" ++ newline ++ d.braced.atoms ++ (handlers.map (·.1)).flatten ++
             faultAtoms ++ cleanupAtoms }

end TreeScribe.Render
