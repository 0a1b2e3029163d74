import TreeScribe.Render.Env

/-! Operators, assignments and type tests. -/
namespace TreeScribe.Render

open Atoms

variable (env : Env)

/-- `Type.Method(a, b)` -/
def staticCall (kind : NodeKind) (declaring : TypeRef) (name : String) (ty : TypeRef)
    (args : List Child) : Rendering Doc := do
  let args ← values args
  return { kind, ty
           atoms := env.typeName declaring ++ text "." ++ methodName name ++
             parens (separated ", " args) }

/-! ### Binary operators -/

/-- An operand of `&&` or `||`: another operation is always put in parentheses, except one of
the same operator. -/
def logicalOperand (op : BinaryOp) (c : Child) : Rendering Doc :=
  match c.1.form with
  | .binary inner _ _ _ _ =>
    if inner == op then value c
    else if !inner.isChecked && inner != .power && inner != .arrayIndex then do
      return (← value c).parenthesized
    else operand c (op.level + 1)
  | _ => operand c (op.level + 1)

/-- The operands of an operator. Those on the side to which it does not associate bind tighter. -/
def operands (op : BinaryOp) (left right : Child) : Rendering (Doc × Doc) := do
  if op.isLogical then return (← logicalOperand op left, ← logicalOperand op right)
  else if op == .coalesce then
    return (← operand left (op.level + 1), ← operand right op.level)
  else return (← operand left op.level, ← operand right (op.level + 1))

/-- `left op right`. A long chain of `&&` or `||` is broken after the operator. -/
def operation (op : BinaryOp) (left right : Child) (ty : TypeRef) : Rendering Doc := do
  let (left, right) ← operands op left right
  let wraps := op.isLogical && lineLimit < left.size + right.size + 4
  let rest := if wraps then indented (newline ++ right.atoms) else space ++ right.atoms
  return { kind := .binary op, ty, atoms := left.atoms ++ space ++ operator op.level op.symbol ++ rest }

/-- `checked(...)` -/
def checkedAtoms (d : Doc) : Atoms := keyword "checked" ++ parens d.atoms

def power (left right : Child) (ty : TypeRef) : Rendering Doc :=
  staticCall env (.binary .power) .math "Pow" ty [left, right]

def binary (op : BinaryOp) (left right : Child) (ty : TypeRef) (method : Option MethodInfo) :
    Rendering Doc := do
  match method.filter (!·.isOperator) with
  | some m => staticCall env (.binary op) m.declaring m.name ty [left, right]
  | none =>
    if op == .power then power env left right ty
    else if op == .arrayIndex then
      let left ← operand left Level.primary
      let right ← value right
      return { kind := .binary op, ty, atoms := left.atoms ++ bracketed "[" "]" right.atoms }
    else if op.isChecked then
      let inner ← operation op left right ty
      return { kind := .binary op, ty, atoms := checkedAtoms inner }
    else operation op left right ty

/-! ### Assignments -/

/-- What declares the variable of an assignment, if this assignment does. -/
def declaringAtoms (node : Nat) (left : Child) : Rendering Atoms := do
  match env.analysis.target? node with
  | none => return []
  | some slot =>
    if ← env.analysis.scopes.declaresAssignment slot node then
      if env.analysis.isTypedJoin node then
        return declaring slot (env.typeName left.1.ty ++ space)
      else return declaring slot (keyword "var" ++ space)
    else return []

/-- An assignment. A checked or power assignment repeats its target on the right. -/
def assignment (node : Nat) (op : BinaryOp) (left right : Child) (ty : TypeRef) :
    Rendering Doc := do
  let declaring ← declaringAtoms env node left
  let target ← value left
  let lead := declaring ++ target.atoms
  if op == .powerAssign then
    let inner ← power env left right ty
    return { kind := .binary op, ty, atoms := lead ++ operator op.level " = " ++ inner.atoms }
  else
    match op.checkedOperator? with
    | some plain =>
      let inner ← operation plain left right ty
      return { kind := .binary op, ty
               atoms := lead ++ operator op.level " = " ++ checkedAtoms inner }
    | none =>
      let right ← value right
      return { kind := .binary op, ty
               atoms := lead ++ space ++ operator op.level op.symbol ++ space ++ right.atoms }

/-! ### Unary operators -/

/-- The operand starts with this sign, so that the two would read as one. -/
def startsWithSign (isMinus : Bool) (e : Expr) : Bool :=
  match e.form with
  | .unary op _ _ _ =>
    match op with
    | .negate | .negateChecked | .preDecrementAssign => isMinus
    | .unaryPlus | .preIncrementAssign => !isMinus
    | _ => false
  | .constant c => isMinus && c.value.isNegative
  | _ => false

/-- A sign and its operand. -/
def signed (isMinus : Bool) (c : Child) : Rendering Atoms := do
  let sign := operator Level.unary (if isMinus then "-" else "+")
  if startsWithSign isMinus c.1 then return sign ++ (← value c).parenthesized.atoms
  else return sign ++ (← operand c Level.unary).atoms

def unary (op : UnaryOp) (operand? : Option Child) (ty : TypeRef) (method : Option MethodInfo) :
    Rendering Doc := do
  let doc (atoms : Atoms) : Doc := { kind := .unary op, ty, atoms }
  match operand? with
  | none => return { doc (control "throw") with endsWithJump := true }
  | some c =>
    match method.filter (!·.isOperator) with
    | some m => staticCall env (.unary op) m.declaring m.name ty [c]
    | none =>
      match op with
      | .negate => return doc (← signed true c)
      | .unaryPlus => return doc (← signed false c)
      | .negateChecked => return doc (checkedAtoms (doc (← signed true c)))
      | .not =>
        let d ← operand c Level.unary
        return doc (operator Level.unary (if ty.isBool then "!" else "~") ++ d.atoms)
      | .onesComplement => return doc (operator Level.unary "~" ++ (← operand c Level.unary).atoms)
      | .isTrue => value c
      | .isFalse => return doc (operator Level.unary "!" ++ (← operand c Level.unary).atoms)
      | .increment =>
        let d ← operand c Level.additive
        return doc (d.atoms ++ operator Level.additive " + " ++ text "1")
      | .decrement =>
        let d ← operand c Level.additive
        return doc (d.atoms ++ operator Level.additive " - " ++ text "1")
      | .preIncrementAssign =>
        return doc (operator Level.unary "++" ++ (← operand c Level.unary).atoms)
      | .preDecrementAssign =>
        return doc (operator Level.unary "--" ++ (← operand c Level.unary).atoms)
      | .postIncrementAssign => return doc ((← operand c Level.primary).atoms ++ text "++")
      | .postDecrementAssign => return doc ((← operand c Level.primary).atoms ++ text "--")
      | .convert | .convertChecked | .unbox =>
        if c.1.ty = ty then value c
        else
          let d ← operand c Level.unary
          -- the brackets of a cast are no brackets around a part, but the sign of an operator
          return doc (operator Level.unary "(" ++ env.typeName ty ++ text ")" ++ d.atoms)
      | .typeAs =>
        let d ← operand c Level.relational
        return doc (d.atoms ++ space ++ operatorWord Level.relational "as" ++ space ++
          env.typeName ty)
      | .quote =>
        let d ← value c
        let remark := token .comment "// Quoted to induce a closure:" ++ newline
        return doc (Atoms.when (env.settings.choice .quoteComments) remark ++ d.atoms)
      | .throw =>
        let d ← value c
        return { doc ([.operator Level.lambda .control "throw"] ++ space ++ d.atoms) with
                 endsWithJump := true }
      | .arrayLength => return doc ((← operand c Level.primary).atoms ++ text ".Length")

/-! ### Type tests -/

def typeTest (c : Child) (tested : TypeRef) (exact : Bool) : Rendering Doc := do
  if exact then
    let d ← operand c Level.primary
    return { kind := .typeEqual, ty := .bool
             atoms := d.atoms ++ text "." ++ methodName "GetType" ++ text "()" ++
               operator Level.equality " == " ++ keyword "typeof" ++ parens (env.typeName tested) }
  else
    let d ← operand c Level.relational
    return { kind := .typeIs, ty := .bool
             atoms := d.atoms ++ space ++ operatorWord Level.relational "is" ++ space ++
               env.typeName tested }

end TreeScribe.Render
