/-! Type references.

A `TypeRef` names a type with everything its name needs: the namespace, the raw name with its
arity marker, the enclosing type, the flattened generic arguments and, for arrays, the element
type and rank. Equality is structural. -/
namespace TreeScribe

inductive TypeKind where
  | classType
  | struct
  | interface
  | enum
  | delegate
  /-- An open generic parameter such as `T`. -/
  | genericParameter
  | array
deriving DecidableEq, Repr, Inhabited

structure TypeRef where
  kind : TypeKind
  nameSpace : Option String := none
  /-- The raw name, arity marker included. -/
  name : String
  /-- The enclosing type of a nested type. -/
  declaring : Option TypeRef := none
  /-- Generic arguments, those of the enclosing types first. -/
  args : List TypeRef := []
  /-- The element type of an array. -/
  element : Option TypeRef := none
  rank : Nat := 1
  isAnonymous : Bool := false
  /-- A class that holds captured variables. -/
  isClosure : Bool := false
deriving Repr, Inhabited

namespace TypeRef

/-! ### Equality -/

mutual

def decideEq : (a b : TypeRef) → Decidable (a = b)
  | ⟨k, ns, n, d, as, e, r, an, cl⟩, ⟨k', ns', n', d', as', e', r', an', cl'⟩ =>
    match decideEqOption d d', decideEqList as as', decideEqOption e e' with
    | isTrue hd, isTrue ha, isTrue he =>
      if h : k = k' ∧ ns = ns' ∧ n = n' ∧ r = r' ∧ an = an' ∧ cl = cl' then
        isTrue (by simp [hd, ha, he, h])
      else isFalse (by rintro ⟨⟩; exact h ⟨rfl, rfl, rfl, rfl, rfl, rfl⟩)
    | isFalse hd, _, _ => isFalse (by rintro ⟨⟩; exact hd rfl)
    | _, isFalse ha, _ => isFalse (by rintro ⟨⟩; exact ha rfl)
    | _, _, isFalse he => isFalse (by rintro ⟨⟩; exact he rfl)

def decideEqOption : (a b : Option TypeRef) → Decidable (a = b)
  | none, none => isTrue rfl
  | none, some _ => isFalse (by simp)
  | some _, none => isFalse (by simp)
  | some a, some b =>
    match decideEq a b with
    | isTrue h => isTrue (by rw [h])
    | isFalse h => isFalse (by simpa using h)

def decideEqList : (a b : List TypeRef) → Decidable (a = b)
  | [], [] => isTrue rfl
  | [], _ :: _ => isFalse (by simp)
  | _ :: _, [] => isFalse (by simp)
  | a :: as, b :: bs =>
    match decideEq a b, decideEqList as bs with
    | isTrue h, isTrue hs => isTrue (by rw [h, hs])
    | isFalse h, _ => isFalse (by simp [h])
    | _, isFalse hs => isFalse (by simp [hs])

end

instance : DecidableEq TypeRef := decideEq

/-! ### Making types -/

/-- A named type. An empty namespace is the global one. -/
def named (kind : TypeKind) (space name : String) : TypeRef where
  kind := kind
  nameSpace := if space.isEmpty then none else some space
  name := name

/-- An open generic parameter, which has no namespace. -/
def parameter (name : String) : TypeRef := { kind := .genericParameter, name := name }

def withArgs (t : TypeRef) (args : List TypeRef) : TypeRef := { t with args := args }

/-- The type nested in an enclosing one, whose namespace it takes. -/
def nestedIn (t outer : TypeRef) : TypeRef :=
  { t with nameSpace := outer.nameSpace, declaring := some outer }

def arrayOfRank (element : TypeRef) (rank : Nat) : TypeRef where
  kind := .array
  nameSpace := element.nameSpace
  name := element.name ++ "[]"
  element := some element
  rank := max rank 1

def arrayOf (element : TypeRef) : TypeRef := arrayOfRank element 1

/-- The namespace of the built-in types. -/
def system : String := "System"

def nullable (t : TypeRef) : TypeRef := (named .struct system "Nullable`1").withArgs [t]

/-- An anonymous type whose properties have these types. -/
def anonymous (properties : List TypeRef) : TypeRef where
  kind := .classType
  name := "<>f__AnonymousType0`" ++ toString properties.length
  args := properties
  isAnonymous := true

/-- A class made to hold captured variables. -/
def closure (name : String) : TypeRef where
  kind := .classType
  name := name
  isClosure := true

def void : TypeRef := named .struct system "Void"
def object : TypeRef := named .classType system "Object"
def string : TypeRef := named .classType system "String"
def bool : TypeRef := named .struct system "Boolean"
def int : TypeRef := named .struct system "Int32"
def long : TypeRef := named .struct system "Int64"
def short : TypeRef := named .struct system "Int16"
def byte : TypeRef := named .struct system "Byte"
def sbyte : TypeRef := named .struct system "SByte"
def uint : TypeRef := named .struct system "UInt32"
def ulong : TypeRef := named .struct system "UInt64"
def ushort : TypeRef := named .struct system "UInt16"
def double : TypeRef := named .struct system "Double"
def float : TypeRef := named .struct system "Single"
def decimal : TypeRef := named .struct system "Decimal"
def char : TypeRef := named .struct system "Char"
def exception : TypeRef := named .classType system "Exception"
/-- The type of `typeof(...)`. -/
def typeOfTypes : TypeRef := named .classType system "Type"
def math : TypeRef := named .classType system "Math"

/-! ### Queries -/

/-- A top-level type of the built-in namespace with this raw name. -/
def isSystem (t : TypeRef) (name : String) : Bool :=
  t.declaring.isNone && t.kind != .array && t.nameSpace == some system && t.name == name

def isVoid (t : TypeRef) : Bool := t.isSystem "Void"
def isString (t : TypeRef) : Bool := t.isSystem "String"
def isObject (t : TypeRef) : Bool := t.isSystem "Object"
def isBool (t : TypeRef) : Bool := t.isSystem "Boolean"
def isArray (t : TypeRef) : Bool := t.kind == .array
def isInterface (t : TypeRef) : Bool := t.kind == .interface
def isEnum (t : TypeRef) : Bool := t.kind == .enum
def isParameter (t : TypeRef) : Bool := t.kind == .genericParameter
def isValueType (t : TypeRef) : Bool := t.kind == .struct || t.kind == .enum
def isGeneric (t : TypeRef) : Bool := !t.args.isEmpty
def isNullable (t : TypeRef) : Bool := t.isSystem "Nullable`1" && t.args.length == 1

/-- `T` of a nullable `T`. -/
def underlying? (t : TypeRef) : Option TypeRef := if t.isNullable then t.args.head? else none

/-- The type of a quoted lambda. -/
def isQuoted (t : TypeRef) : Bool :=
  t.nameSpace == some "System.Linq.Expressions" && t.name == "Expression`1"

/-- `Func` with the result type last for a lambda with a result, `Action` otherwise. -/
def delegateFor (parameters : List TypeRef) (result : TypeRef) : TypeRef :=
  if result.isVoid then
    if parameters.isEmpty then named .delegate system "Action"
    else (named .delegate system ("Action`" ++ toString parameters.length)).withArgs parameters
  else
    let args := parameters ++ [result]
    (named .delegate system ("Func`" ++ toString args.length)).withArgs args

def quotedOf (delegate : TypeRef) : TypeRef :=
  (named .classType "System.Linq.Expressions" "Expression`1").withArgs [delegate]

/-- The keyword of a built-in type. -/
def keyword? (t : TypeRef) : Option String :=
  if t.nameSpace != some system || t.declaring.isSome || t.kind == .array then none
  else
    [("String", "string"), ("Int32", "int"), ("Boolean", "bool"), ("Decimal", "decimal"),
      ("Int64", "long"), ("Double", "double"), ("Object", "object"), ("Byte", "byte"),
      ("Int16", "short"), ("Single", "float"), ("Char", "char"), ("UInt32", "uint"),
      ("UInt64", "ulong"), ("SByte", "sbyte"), ("UInt16", "ushort"), ("Void", "void")].lookup
      t.name

/-! ### Names -/

/-- The number that a text of digits spells out, a plus sign allowed, if a word holds it. -/
def arityOf? (digits : List Char) : Option Nat :=
  let digits :=
    match digits with
    | '+' :: rest => rest
    | digits => digits
  if digits.isEmpty || !digits.all Char.isDigit then none
  else
    let n := digits.foldl (fun n c => n * 10 + (c.toNat - 48)) 0
    if n < UInt64.size then some n else none

/-- A raw name cut at its last backquote, where a number follows: the name and the arity. -/
def splitArity (name : String) : String × Nat :=
  let reversed := name.toList.reverse
  let marker := reversed.takeWhile (· != '\x60')
  match reversed.drop marker.length, arityOf? marker.reverse with
  | _ :: before, some arity => (String.ofList before.reverse, arity)
  | _, _ => (name, 0)

/-- The raw name without its arity marker. -/
def shortName (t : TypeRef) : String := (splitArity t.name).1

/-- The number of generic parameters that the type itself declares. -/
def ownArity (t : TypeRef) : Nat := (splitArity t.name).2

/-- The brackets of an array of some rank. -/
def brackets (rank : Nat) : String :=
  "[" ++ String.ofList (List.replicate (rank - 1) ',') ++ "]"

/-- The name with namespace and enclosing types, for messages. -/
def fullName : TypeRef → String
  | ⟨_, _, _, _, _, some element, rank, _, _⟩ => fullName element ++ brackets rank
  | ⟨_, _, name, some declaring, _, none, _, _, _⟩ => fullName declaring ++ "+" ++ name
  | ⟨_, some space, name, none, _, none, _, _, _⟩ => space ++ "." ++ name
  | ⟨_, none, name, none, _, none, _, _, _⟩ => name

/-- The full name marked as a type. -/
def debugText (t : TypeRef) : String := "TypeRef(" ++ t.fullName ++ ")"

end TypeRef
end TreeScribe
