import TreeScribe.Tree.Form

/-! Scopes and the variables that live in them.

Scopes are numbered in the order of creation, the root being number zero, and every other scope
has a parent with a smaller number. A variable belongs to the nearest enclosing scope that
declares it, or to the root as a free variable. How it is declared follows from its accesses:
the first of them may carry the declaration, and a later one from outside the scope of that
access takes the declaration back to the list at the top of the block. -/
namespace TreeScribe

inductive ScopeKind where
  | root
  | lambda
  | block
  | branch
  | loopBody
  | switchCase
  | tryBody
  | catchBody
  | cleanupBody
  /-- A block that becomes a method of its own. -/
  | extracted
deriving DecidableEq, Repr, Inhabited

/-- What identifies a variable. -/
structure VariableKey where
  ty : TypeRef
  name : String
deriving DecidableEq, Repr

def Variable.key (v : Variable) : VariableKey := ⟨v.ty, v.name⟩

inductive Declaration where
  /-- Parameters, caught exceptions and free variables. -/
  | undeclared
  /-- At the top of its block. -/
  | inList
  /-- Where it is first passed as an output argument. -/
  | inlineOutput
  /-- Together with its first assignment. -/
  | joinedAssignment
deriving DecidableEq, Repr, Inhabited

structure VariableInfo where
  key : VariableKey
  declaration : Declaration
  uses : Nat := 0
  /-- Accessed in any way. -/
  seen : Bool := false
  /-- The scope of the access that carries the declaration. -/
  home : Option Nat := none
  /-- The assignment that carries the declaration. -/
  carrier : Option Nat := none
deriving DecidableEq, Repr

namespace VariableInfo

def isUsed (v : VariableInfo) : Bool := 0 < v.uses

/-- The assignment that declares the variable. -/
def joined? (v : VariableInfo) : Option Nat :=
  match v.declaration with
  | .joinedAssignment => v.carrier
  | _ => none

/-- An access now may still carry the declaration. -/
def isFresh (v : VariableInfo) : Bool := !v.seen && v.declaration == .inList

/-- The declaration is carried by an access. -/
def isCarried (v : VariableInfo) : Bool :=
  v.declaration == .joinedAssignment || v.declaration == .inlineOutput

/-- An access that carries no declaration. One from outside the scope of the access that does
takes the declaration away from it. -/
def used (v : VariableInfo) (isOutside : Nat → Bool) : VariableInfo :=
  let v := { v with seen := true, uses := v.uses + 1 }
  if v.isCarried && v.home.any isOutside then { v with declaration := .inList, carrier := none }
  else v

end VariableInfo

/-- How a variable is accessed. -/
inductive Access where
  /-- A read, or a write that cannot carry a declaration. -/
  | reference (isAssigned : Bool)
  /-- An assignment to the variable, by a node that may stand as a statement. -/
  | assignment (node : Nat) (isStatement : Bool)
  /-- Passed as an output argument, which may declare the variable on the spot. -/
  | output (inline : Bool)
deriving DecidableEq, Repr

def Access.isWrite : Access → Bool
  | .reference isAssigned => isAssigned
  | .assignment _ _ => true
  | .output _ => true

/-- The variable after an access. One that escapes into a method cannot be declared there. -/
def Access.applied (access : Access) (start : Nat) (escapes : Bool) (isOutside : Nat → Bool)
    (v : VariableInfo) : VariableInfo :=
  match access with
  | .assignment node true =>
    if v.isFresh && !escapes then
      { v with
        declaration := .joinedAssignment, carrier := some node, home := some start, seen := true
        uses := v.uses + 1 }
    else v.used isOutside
  | .output true =>
    -- the place that declares a variable is not a use of it
    if v.isFresh && !escapes then
      { v with declaration := .inlineOutput, home := some start, seen := true }
    else v.used isOutside
  | _ => v.used isOutside

/-- A variable from outside a method that is used inside it. -/
structure Escape where
  key : VariableKey
  isAssigned : Bool
deriving DecidableEq, Repr

structure Scope where
  kind : ScopeKind
  parent : Option Nat
  children : List Nat := []
  locals : List VariableInfo := []
  /-- In order of the first access. -/
  escaped : List Escape := []
deriving DecidableEq, Repr

namespace Scope

def indexOf? (s : Scope) (key : VariableKey) : Option Nat :=
  s.locals.findIdx? (·.key == key)

/-- Notes an access to a variable from outside. -/
def noteEscape (s : Scope) (key : VariableKey) (isAssigned : Bool) : Scope :=
  if s.escaped.any (·.key == key) then
    { s with escaped := s.escaped.map fun e =>
        if e.key == key then { e with isAssigned := e.isAssigned || isAssigned } else e }
  else { s with escaped := s.escaped ++ [⟨key, isAssigned⟩] }

end Scope

/-- Where a variable lives. -/
structure Slot where
  scope : Nat
  index : Nat
deriving DecidableEq, Repr, Inhabited

structure ScopeTree where
  scopes : List Scope := [⟨.root, none, [], [], []⟩]
deriving DecidableEq, Repr

namespace ScopeTree

def rootScope : Nat := 0

def scope? (t : ScopeTree) (i : Nat) : Option Scope := t.scopes[i]?

def parent? (t : ScopeTree) (i : Nat) : Option Nat := (t.scope? i).bind (·.parent)

def modifyScope (t : ScopeTree) (i : Nat) (f : Scope → Scope) : ScopeTree :=
  ⟨t.scopes.modify i f⟩

/-- A scope and those around it, from the inside out. -/
def path (t : ScopeTree) (i : Nat) : List Nat :=
  match t.parent? i with
  | none => [i]
  | some p => if p < i then i :: t.path p else [i]

/-- Adds a scope under a parent. -/
def push (t : ScopeTree) (parent : Nat) (kind : ScopeKind) : Nat × ScopeTree :=
  let i := t.scopes.length
  let t := t.modifyScope parent fun s => { s with children := s.children ++ [i] }
  (i, ⟨t.scopes ++ [⟨kind, some parent, [], [], []⟩]⟩)

/-! ### Variables -/

/-- The slot of a variable that the scope itself declares. -/
def slotIn? (t : ScopeTree) (i : Nat) (key : VariableKey) : Option Slot := do
  let s ← t.scope? i
  let index ← s.indexOf? key
  return ⟨i, index⟩

/-- The slot of a variable in the nearest scope that declares it. -/
def find? (t : ScopeTree) (start : Nat) (key : VariableKey) : Option Slot :=
  (t.path start).findSome? (t.slotIn? · key)

/-- Declares a variable in a scope, unless the scope declares it already. -/
def declare (t : ScopeTree) (i : Nat) (key : VariableKey) (declaration : Declaration) :
    Slot × ScopeTree :=
  match t.slotIn? i key with
  | some slot => (slot, t)
  | none =>
    let index := ((t.scope? i).map (·.locals.length)).getD 0
    (⟨i, index⟩, t.modifyScope i fun s =>
      { s with locals := s.locals ++ [{ key, declaration }] })

/-- The slot of a variable seen from a scope; one that no scope declares is free, and lives in
the root. -/
def resolve (t : ScopeTree) (start : Nat) (key : VariableKey) : Slot × ScopeTree :=
  match t.find? start key with
  | some slot => (slot, t)
  | none => t.declare rootScope key .undeclared

def info? (t : ScopeTree) (slot : Slot) : Option VariableInfo :=
  (t.scope? slot.scope).bind (·.locals[slot.index]?)

def modifyVariable (t : ScopeTree) (slot : Slot) (f : VariableInfo → VariableInfo) : ScopeTree :=
  t.modifyScope slot.scope fun s => { s with locals := s.locals.modify slot.index f }

/-- The scope is the other one or lies within it. -/
def isWithin (t : ScopeTree) (i outer : Nat) : Bool := (t.path i).contains outer

/-! ### Escapes -/

def isExtracted (t : ScopeTree) (i : Nat) : Bool :=
  match t.scope? i with
  | some s => s.kind == .extracted
  | none => false

/-- The extracted scopes from `start` up to the scope of the slot, which is left out. -/
def extractedUpTo (t : ScopeTree) (start : Nat) (slot : Slot) : List Nat :=
  ((t.path start).takeWhile (· != slot.scope)).filter t.isExtracted

def noteEscapes (t : ScopeTree) (key : VariableKey) (isAssigned : Bool) :
    List Nat → ScopeTree
  | [] => t
  | i :: is => noteEscapes (t.modifyScope i (·.noteEscape key isAssigned)) key isAssigned is

/-! ### Accesses -/

/-- Records an access to a variable from a scope. -/
def access (t : ScopeTree) (start : Nat) (key : VariableKey) (how : Access) :
    Slot × ScopeTree :=
  let (slot, t) := t.resolve start key
  let extracted := t.extractedUpTo start slot
  let t := t.noteEscapes key how.isWrite extracted
  let isOutside (home : Nat) := !t.isWithin start home
  (slot, t.modifyVariable slot (how.applied start (!extracted.isEmpty) isOutside))

/-- All variables with their slots, scope by scope. -/
def locals (t : ScopeTree) : List (Slot × VariableInfo) :=
  t.scopes.zipIdx.flatMap fun (s, i) => s.locals.zipIdx.map fun (v, j) => (⟨i, j⟩, v)

/-! ### Writing declarations -/

/-- Claims the writing of a declaration: granted to the first that is entitled to it. -/
def claim (slot : Slot) (entitled : Bool) : StateM (List Slot) Bool := do
  let written ← get
  if entitled && !written.contains slot then
    set (slot :: written)
    return true
  else return false

/-- Whether to declare the variable in this output argument. -/
def declaresOutput (t : ScopeTree) (slot : Slot) : StateM (List Slot) Bool :=
  claim slot ((t.info? slot).any (·.declaration == .inlineOutput))

/-- Whether to declare the variable in this assignment. -/
def declaresAssignment (t : ScopeTree) (slot : Slot) (node : Nat) : StateM (List Slot) Bool :=
  claim slot ((t.info? slot).any (·.joined? == some node))

end ScopeTree
end TreeScribe
