import TreeScribe.Proofs.Read.Lexer

/-! A reader of trees of operators, and a writer.

The reader keeps a stack of what is still open: operators that wait for their right operand, and
brackets. An operator first takes all that binds tighter than itself from the stack, and a closing
bracket takes everything back to the bracket it closes. `OpTree.lexemes` writes a tree with as few
parentheses as the levels allow. -/
namespace TreeScribe.Read

inductive OpTree where
  | name (s : String)
  | number (n : Nat) (isLong : Bool)
  | unary (op : UnaryOp) (operand : OpTree)
  | binary (op : BinaryOp) (left right : OpTree)
  | conditional (test ifTrue ifFalse : OpTree)
deriving DecidableEq, Repr

/-! ### The reader -/

def unaryOf? : String → Option UnaryOp
  | "-" => some .negate
  | "+" => some .unaryPlus
  | "!" => some .not
  | "~" => some .onesComplement
  | "++" => some .preIncrementAssign
  | "--" => some .preDecrementAssign
  | _ => none

def binaryOf? : String → Option BinaryOp
  | "*" => some .multiply
  | "/" => some .divide
  | "%" => some .modulo
  | "+" => some .add
  | "-" => some .subtract
  | "<<" => some .leftShift
  | ">>" => some .rightShift
  | "<" => some .lessThan
  | "<=" => some .lessThanOrEqual
  | ">" => some .greaterThan
  | ">=" => some .greaterThanOrEqual
  | "==" => some .equal
  | "!=" => some .notEqual
  | "&" => some .and
  | "^" => some .exclusiveOr
  | "|" => some .or
  | "&&" => some .andAlso
  | "||" => some .orElse
  | "??" => some .coalesce
  | _ => none

/-- The operation in `checked(...)`. -/
def OpTree.checked? : OpTree → Option OpTree
  | .binary .add l r => some (.binary .addChecked l r)
  | .binary .subtract l r => some (.binary .subtractChecked l r)
  | .binary .multiply l r => some (.binary .multiplyChecked l r)
  | .unary .negate t => some (.unary .negateChecked t)
  | _ => none

/-- Something that is open, with a hole where an operand comes. -/
inductive Frame where
  | left (op : BinaryOp) (left : OpTree)
  | unary (op : UnaryOp)
  /-- `test ? _` -/
  | question (test : OpTree)
  /-- `test ? ifTrue : _` -/
  | colon (test ifTrue : OpTree)
  | parens
  /-- `array[_` -/
  | index (array : OpTree)
  /-- `checked(_` -/
  | checked
  /-- `Math.Pow(_` -/
  | base
  /-- `Math.Pow(base, _` -/
  | exponent (base : OpTree)

namespace Frame

/-- The level of an operator that waits for its last operand. -/
def level? : Frame → Option Level
  | .left op _ => some op.level
  | .unary _ => some Level.unary
  | .colon _ _ => some Level.conditional
  | _ => none

def fill (t : OpTree) : Frame → OpTree
  | .left op l => .binary op l t
  | .unary op => .unary op t
  | .colon test ifTrue => .conditional test ifTrue t
  | _ => t

/-- At these levels operators nest to the right. -/
def nestsRight (level : Level) : Bool :=
  level == Level.conditional || level == Level.coalesce || level == Level.unary

/-- An operator of this level takes the operation as its left operand. -/
def isTakenBy (level : Level) (f : Frame) : Bool :=
  match f.level? with
  | none => false
  | some l => level < l || level == l && !nestsRight level

end Frame

/-- Fills the frames at the top of the stack, as long as they are to be taken. -/
def reduce (isTaken : Frame → Bool) (t : OpTree) : List Frame → OpTree × List Frame
  | [] => (t, [])
  | f :: fs => if isTaken f then reduce isTaken (f.fill t) fs else (t, f :: fs)

def reduceAll (t : OpTree) (fs : List Frame) : OpTree × List Frame :=
  reduce (·.level?.isSome) t fs

inductive Reader where
  /-- An operand comes next. -/
  | wants (stack : List Frame)
  | has (t : OpTree) (stack : List Frame)
  /-- A parenthesis comes next, and opens the frame. -/
  | opens (frame : Frame) (stack : List Frame)
  /-- After `Math.` -/
  | selects (stack : List Frame)

namespace Reader

/-- A sign that ends what is open, after an operand that has taken all operators. -/
def close (s : String) (operand : OpTree × List Frame) : Option Reader :=
  match s, operand with
  | ":", (t, .question c :: fs) => some (.wants (.colon c t :: fs))
  | ")", (t, .parens :: fs) => some (.has t fs)
  | ")", (t, .checked :: fs) => t.checked?.map (.has · fs)
  | ",", (t, .base :: fs) => some (.wants (.exponent t :: fs))
  | ")", (t, .exponent b :: fs) => some (.has (.binary .power b t) fs)
  | "]", (t, .index a :: fs) => some (.has (.binary .arrayIndex a t) fs)
  | _, _ => none

/-- A sign after an operand. -/
def afterOperand (t : OpTree) (fs : List Frame) (s : String) : Option Reader :=
  match s with
  | "++" => some (.has (.unary .postIncrementAssign t) fs)
  | "--" => some (.has (.unary .postDecrementAssign t) fs)
  | "[" => some (.wants (.index t :: fs))
  | "." => if t = .name "Math" then some (.selects fs) else none
  | "?" =>
    let (t, fs) := reduce (Frame.isTakenBy Level.conditional) t fs
    some (.wants (.question t :: fs))
  | s =>
    match binaryOf? s with
    | some op =>
      let (t, fs) := reduce (Frame.isTakenBy op.level) t fs
      some (.wants (.left op t :: fs))
    | none => close s (reduceAll t fs)

def step : Reader → Lexeme → Option Reader
  | .wants fs, .name s => some (.has (.name s) fs)
  | .wants fs, .number n isLong => some (.has (.number n isLong) fs)
  | .wants fs, .word s => if s = "checked" then some (.opens .checked fs) else none
  | .wants fs, .sign s =>
    if s = "(" then some (.wants (.parens :: fs))
    else (unaryOf? s).map fun op => .wants (.unary op :: fs)
  | .has t fs, .sign s => afterOperand t fs s
  | .opens f fs, .sign s => if s = "(" then some (.wants (f :: fs)) else none
  | .selects fs, .name s => if s = "Pow" then some (.opens .base fs) else none
  | _, _ => none

def run (r : Reader) (ls : List Lexeme) : Option Reader := ls.foldlM step r

end Reader

/-- The tree of operators that the lexemes write. -/
def read (ls : List Lexeme) : Option OpTree :=
  match Reader.run (.wants []) ls with
  | some (.has t fs) =>
    match reduceAll t fs with
    | (t, []) => some t
    | _ => none
  | _ => none

example : read (lex "a ?? b * -c++ ? checked(x - y) : Math.Pow(x, 2)[0]") =
    some (.conditional
      (.binary .coalesce (.name "a")
        (.binary .multiply (.name "b") (.unary .negate (.unary .postIncrementAssign (.name "c")))))
      (.binary .subtractChecked (.name "x") (.name "y"))
      (.binary .arrayIndex (.binary .power (.name "x") (.number 2 false)) (.number 0 false))) := by
  decide +kernel

/-! ### Writing trees -/

namespace OpTree

/-- How tightly a tree binds as it is written. -/
def level : OpTree → Level
  | .name _ | .number _ _ => Level.primary
  | .unary op _ =>
    match op with
    | .postIncrementAssign | .postDecrementAssign => Level.primary
    | _ => Level.unary
  | .binary op _ _ => if op.isChecked then Level.primary else op.level
  | .conditional _ _ _ => Level.conditional

def startsWithSign (isMinus : Bool) : OpTree → Bool
  | .unary op _ =>
    match op with
    | .negate | .negateChecked | .preDecrementAssign => isMinus
    | .unaryPlus | .preIncrementAssign => !isMinus
    | _ => false
  | _ => false

end OpTree

/-- Lexemes in parentheses if they are needed. -/
def enclosed (isNeeded : Bool) (ls : List Lexeme) : List Lexeme :=
  if isNeeded then [Lexeme.sign "("] ++ ls ++ [Lexeme.sign ")"] else ls

/-- A tree and how it is written. -/
abbrev Written := OpTree × List Lexeme

namespace Written

def operand (w : Written) (level : Level) : List Lexeme := enclosed (w.1.level < level) w.2

def logicalOperand (op : BinaryOp) (w : Written) : List Lexeme :=
  match w.1 with
  | .binary inner _ _ =>
    if inner == op then w.2
    else if !inner.isChecked && inner != .power && inner != .arrayIndex then enclosed true w.2
    else w.operand (op.level + 1)
  | _ => w.operand (op.level + 1)

def operation (op : BinaryOp) (l r : Written) : List Lexeme :=
  let sign : List Lexeme := [.sign op.symbol]
  if op.isLogical then l.logicalOperand op ++ sign ++ r.logicalOperand op
  else if op == .coalesce then l.operand (op.level + 1) ++ sign ++ r.operand op.level
  else l.operand op.level ++ sign ++ r.operand (op.level + 1)

/-- `checked(...)` -/
def checked (ls : List Lexeme) : List Lexeme := [Lexeme.word "checked", .sign "("] ++ ls ++ [Lexeme.sign ")"]

def binary (op : BinaryOp) (l r : Written) : List Lexeme :=
  if op == .power then
    [Lexeme.name "Math", .sign ".", .name "Pow", .sign "("] ++ l.2 ++ [Lexeme.sign ","] ++ r.2 ++ [Lexeme.sign ")"]
  else if op == .arrayIndex then
    l.operand Level.primary ++ [Lexeme.sign "["] ++ r.2 ++ [Lexeme.sign "]"]
  else if op.isChecked then checked (operation op l r)
  else operation op l r

def signed (isMinus : Bool) (w : Written) : List Lexeme :=
  [Lexeme.sign (if isMinus then "-" else "+")] ++
    enclosed (w.1.startsWithSign isMinus || w.1.level < Level.unary) w.2

def unary (op : UnaryOp) (w : Written) : List Lexeme :=
  match op with
  | .negate => signed true w
  | .unaryPlus => signed false w
  | .negateChecked => checked (signed true w)
  | .not => [Lexeme.sign "!"] ++ w.operand Level.unary
  | .onesComplement => [Lexeme.sign "~"] ++ w.operand Level.unary
  | .preIncrementAssign => [Lexeme.sign "++"] ++ w.operand Level.unary
  | .preDecrementAssign => [Lexeme.sign "--"] ++ w.operand Level.unary
  | .postIncrementAssign => w.operand Level.primary ++ [Lexeme.sign "++"]
  | .postDecrementAssign => w.operand Level.primary ++ [Lexeme.sign "--"]
  | _ => []

def conditional (test ifTrue ifFalse : Written) : List Lexeme :=
  test.operand Level.coalesce ++ [Lexeme.sign "?"] ++ ifTrue.operand Level.conditional ++
    [Lexeme.sign ":"] ++ ifFalse.operand Level.conditional

end Written

namespace OpTree

def lexemes : OpTree → List Lexeme
  | .name s => [.name s]
  | .number n isLong => [.number n isLong]
  | .unary op t => Written.unary op (t, t.lexemes)
  | .binary op l r => Written.binary op (l, l.lexemes) (r, r.lexemes)
  | .conditional test ifTrue ifFalse =>
    Written.conditional (test, test.lexemes) (ifTrue, ifTrue.lexemes) (ifFalse, ifFalse.lexemes)

/-- The operators that are read one by one. -/
def readsUnary : UnaryOp → Bool
  | .negate | .negateChecked | .unaryPlus | .not | .onesComplement | .preIncrementAssign
  | .preDecrementAssign | .postIncrementAssign | .postDecrementAssign => true
  | _ => false

/-- All operators of the tree have a sign or form of their own. -/
def IsReadable : OpTree → Prop
  | .name _ | .number _ _ => True
  | .unary op t => readsUnary op = true ∧ t.IsReadable
  | .binary op l r => op.isAssignment = false ∧ l.IsReadable ∧ r.IsReadable
  | .conditional test ifTrue ifFalse => test.IsReadable ∧ ifTrue.IsReadable ∧ ifFalse.IsReadable

/-- No `&&` is the right operand of another one, and no `||` of another one. -/
def IsLeftNested : OpTree → Prop
  | .name _ | .number _ _ => True
  | .unary _ t => t.IsLeftNested
  | .binary op l r =>
    l.IsLeftNested ∧ r.IsLeftNested ∧ (op.isLogical = true → ∀ a b, r ≠ .binary op a b)
  | .conditional test ifTrue ifFalse =>
    test.IsLeftNested ∧ ifTrue.IsLeftNested ∧ ifFalse.IsLeftNested

end OpTree

end TreeScribe.Read
