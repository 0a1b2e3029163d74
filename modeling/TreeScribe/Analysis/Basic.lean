import TreeScribe.Settings.Basic
import TreeScribe.TypeRef.Namespaces

/-! What is known about a tree before it is written: its scopes, how its variables are declared,
the namespaces it needs, the blocks that become methods, and the targets that are jumped to. -/
namespace TreeScribe

inductive AnalysisMode where
  /-- An expression on its own. -/
  | expression
  /-- A method body, from which blocks that stand as values are taken out into methods. -/
  | source
deriving DecidableEq, Repr, Inhabited

/-- A block that becomes a method. -/
structure ExtractedBlock where
  block : Expr
  scope : Nat

structure Analysis where
  mode : AnalysisMode
  scopes : ScopeTree := {}
  /-- Scopes by the number of the node they belong to, the latest first; those of handlers go by
  the handler's body. -/
  blockScopes : List (Nat × Nat) := []
  lambdaScopes : List (Nat × Nat) := []
  handlerScopes : List (Nat × Nat) := []
  /-- The variables of assignments and output arguments, the latest first. -/
  targets : List (Nat × Slot) := []
  /-- Variables that are declared together with an assignment, with their type. -/
  typedJoins : List Slot := []
  namespaces : NamespaceSet := {}
  /-- In order of discovery, outer ones before those within. -/
  extracted : List ExtractedBlock := []
  jumpTargets : List Target := []

namespace Analysis

/-- In the order of `using` lines. -/
def requiredNamespaces (a : Analysis) : List String := a.namespaces.sorted

def isExtracted (a : Analysis) (node : Nat) : Bool :=
  a.extracted.any (·.block.label == node)

/-- The variables that an extracted block takes from outside, in order of first use. -/
def escaped (a : Analysis) (b : ExtractedBlock) : List Escape :=
  ((a.scopes.scope? b.scope).map (·.escaped)).getD []

/-- The slot that an assignment or output argument writes to. -/
def target? (a : Analysis) (node : Nat) : Option Slot := a.targets.lookup node

/-- The assignment declares its variable with the type. -/
def isTypedJoin (a : Analysis) (node : Nat) : Bool :=
  (a.target? node).any a.typedJoins.contains

/-- The variables in use that are declared at the top of a block. -/
def blockDeclarations (a : Analysis) (node : Nat) : List VariableKey :=
  match (a.blockScopes.lookup node).bind a.scopes.scope? with
  | some s => (s.locals.filter fun v => v.declaration == .inList && v.isUsed).map (·.key)
  | none => []

/-- Whether a scope uses a variable of its own; without a scope it is taken to be used. -/
def isUsedIn (a : Analysis) (scope : Option Nat) (v : Variable) : Bool :=
  match scope.bind a.scopes.scope? with
  | some s => s.locals.any fun x => x.key == v.key && x.isUsed
  | none => true

def isParameterUsed (a : Analysis) (lambda : Nat) (v : Variable) : Bool :=
  a.isUsedIn (a.lambdaScopes.lookup lambda) v

def isCaughtUsed (a : Analysis) (handlerBody : Nat) (v : Variable) : Bool :=
  a.isUsedIn (a.handlerScopes.lookup handlerBody) v

/-- Some `goto` leads to the target; the labels of others are not written. -/
def isJumpTarget (a : Analysis) (target : Target) : Bool := a.jumpTargets.contains target

end Analysis

/-! ### Shapes that follow from the settings -/

/-- `new[] { ... }`: all elements have one type, whatever the declared one. -/
def Settings.leavesElementType (s : Settings) (types : List TypeRef) : Bool :=
  !s.choice .arrayTypes &&
    match types with
    | [] => false
    | t :: ts => ts.all (· == t)

/-- The generic arguments of a method are written: one cannot be told from the parameters, or
the settings ask for it. -/
def Settings.writesGenericArgs (s : Settings) (m : MethodInfo) : Bool :=
  m.isGeneric && !m.genericArgs.isEmpty &&
    (s.choice .explicitGenerics ||
      m.genericParameters.any fun g => !m.parameters.any fun p => g.occursIn p.ty)

/-- A declaration joined with an assignment of a value is written with its type. -/
def Settings.writesJoinType {ι : Type} (s : Settings) (ty : TypeRef) (value : Node ι) : Bool :=
  !ty.isAnonymous &&
    (s.choice .explicitTypes ||
      match value.form with
      | .lambda _ _ _ _ _ => true
      | .constant c => c.value == .null
      | .unary op _ _ _ => op == .quote
      | _ => false)

def Settings.writesParameterTypes (s : Settings) (parameters : List Variable) : Bool :=
  !parameters.isEmpty && (s.choice .lambdaTypes || parameters.any (·.isByRef))

/-- A concatenation of strings that is written with `+`. -/
def Settings.writesConcat (s : Settings) (m : MethodInfo) : Bool :=
  Node.isConcat m && !s.choice .concatCalls

end TreeScribe
