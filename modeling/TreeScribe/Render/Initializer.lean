import TreeScribe.Render.Call

/-! Construction of objects and arrays, with initializers.

The items of an initializer stand on one line if they fit; otherwise each has a line of its own,
and so have those of the initializers within. -/
namespace TreeScribe.Render

open Atoms

/-- An item of an initializer. -/
inductive Item where
  | value (d : Doc)
  /-- `Name = value` -/
  | named (name : String) (d : Doc)
  /-- `Name = { ... }` -/
  | nested (name : String) (items : List Item)

namespace Item

/-- Items longer than this do not share a line. -/
def limit : Nat := 40

mutual

/-- The length of an item on one line. -/
def size : Item → Nat
  | .value d => d.size
  | .named name d => name.length + 3 + d.size
  | .nested name items => name.length + 3 + (sizes items + 2 * (items.length - 1) + 4)

def sizes : List Item → Nat
  | [] => 0
  | item :: items => size item + sizes items

end

/-- The length of items on one line, with the commas between them. -/
def contentsSize (items : List Item) : Nat := sizes items + 2 * (items.length - 1)

mutual

/-- Takes several lines in any case. -/
def isMultiLine : Item → Bool
  | .value d => d.isMultiLine
  | .named _ d => d.isMultiLine
  | .nested _ items => limit < contentsSize items || anyMultiLine items

def anyMultiLine : List Item → Bool
  | [] => false
  | item :: items => isMultiLine item || anyMultiLine items

end

/-- The items do not fit on one line. -/
def isLong (items : List Item) : Bool := limit < contentsSize items || anyMultiLine items

/-- Items in braces, in the long layout or the short one. -/
def inBraces (long : Bool) (count : Nat) (contents : Atoms) : Atoms :=
  if count = 0 then text " \x7b \x7d"
  else if long then
    newline ++ bracketed "\x7b" "\x7d" (indented (newline ++ contents) ++ newline)
  else bracketed " \x7b " " \x7d" contents

mutual

def write (long : Bool) : Item → Atoms
  | .value d => d.atoms
  | .named name d => text name ++ text " = " ++ d.atoms
  | .nested name items =>
    let long := long || isLong items
    text name ++ text " =" ++ inBraces long items.length (writeAll long items)

/-- Items with commas between them. -/
def writeAll (long : Bool) : List Item → Atoms
  | [] => []
  | [item] => write long item
  | item :: items =>
    write long item ++ text "," ++ (if long then newline else space) ++ writeAll long items

end

/-- The initializer that holds these items. -/
def initializer (items : List Item) : Atoms :=
  inBraces (isLong items) items.length (writeAll (isLong items) items)

/-- `{ a, b }` for an element that takes several arguments. -/
def ofElement (i : ElementInit Doc) : Item :=
  match i.arguments with
  | [d] => .value d
  | ds =>
    .value { kind := .listInit, ty := .void
             atoms := bracketed "\x7b " " \x7d" (separated ", " ds) }

mutual

def ofBinding : Binding Doc → Item
  | .assignment m d => .named m.name d
  | .nested m bindings => .nested m.name (ofBindings bindings)
  | .list m items => .nested m.name (items.map ofElement)

def ofBindings : List (Binding Doc) → List Item
  | [] => []
  | b :: bs => ofBinding b :: ofBindings bs

end

end Item

variable (env : Env)

/-! ### Construction -/

def new (creation : Creation Child) : Rendering Doc := do
  let doc (atoms : Atoms) : Doc :=
    { kind := .new, ty := creation.ty, atoms := keyword "new" ++ atoms }
  if creation.ty.isAnonymous then
    let named := creation.members.zip creation.arguments
    let items ← named.mapM fun (name, c) => do return Item.named name (← value c)
    return doc (Item.initializer items)
  else
    let parameters := (creation.constructor.map (·.parameters)).getD []
    let list ← argumentList env creation.arguments parameters
    return doc (space ++ env.typeName creation.ty ++ list.atoms)

/-- `new T`, with the arguments if there are any. -/
def newAtoms (creation : Creation Child) : Rendering Atoms := do
  let lead := keyword "new" ++ space ++ env.typeName creation.ty
  if creation.arguments.isEmpty then return lead
  else return lead ++ (← argumentList env creation.arguments []).atoms

/-- An object with items to fill it; without items it is written as a plain creation. -/
def filled (creation : Creation Child) (items : Rendering (List Item)) : Rendering Atoms := do
  let lead ← newAtoms env creation
  match ← items with
  | [] => return lead ++ Atoms.when creation.arguments.isEmpty (text "()")
  | items => return lead ++ Item.initializer items

def memberInit (creation : Creation Child) (bindings : List (Binding Child)) : Rendering Doc := do
  let atoms ← filled env creation do return Item.ofBindings (← Binding.mapAllM value bindings)
  return { kind := .memberInit, ty := creation.ty, atoms }

def listInit (creation : Creation Child) (items : List (ElementInit Child)) : Rendering Doc := do
  let atoms ← filled env creation do
    return (← items.mapM (·.mapM value)).map Item.ofElement
  return { kind := .listInit, ty := creation.ty, atoms }

/-! ### Arrays -/

/-- The type at the bottom of nested arrays, with the brackets of the arrays above it. -/
def splitJagged : TypeRef → TypeRef × String
  | ⟨_, _, _, _, _, some element, rank, _, _⟩ =>
    let (innermost, rest) := splitJagged element
    (innermost, TypeRef.brackets rank ++ rest)
  | t => (t, "")

def newArray (elementType : TypeRef) (expressions : List Child) (bounds : Bool) :
    Rendering Doc := do
  let ty := elementType.arrayOfRank (Form.arrayRank expressions bounds)
  let kind : NodeKind := if bounds then .newArrayBounds else .newArrayInit
  let docs ← values expressions
  let doc (atoms : Atoms) : Doc := { kind, ty, atoms := keyword "new" ++ atoms }
  if bounds || expressions.isEmpty then
    let (innermost, rest) := splitJagged elementType
    let sizes := if bounds then separated ", " docs else text "0"
    return doc (space ++ env.typeName innermost ++ bracketed "[" "]" sizes ++ text rest)
  else
    let element :=
      if env.settings.leavesElementType (expressions.map (·.1.ty)) then []
      else space ++ env.typeName elementType
    return doc (element ++ text "[]" ++ Item.initializer (docs.map .value))

end TreeScribe.Render
