import TreeScribe.Number.Binary64
import TreeScribe.TypeRef.Basic

/-! The values of constant nodes. -/
namespace TreeScribe

/-- A captured variable with the value it held. -/
structure Captured (α : Type) where
  name : String
  ty : TypeRef
  value : α
deriving DecidableEq, Repr

inductive ConstantValue where
  | null
  | bool (b : Bool)
  | int (n : Int)
  | uint (n : Nat)
  | float (x : Number.Binary64)
  /-- The digits of an exact decimal. -/
  | decimal (text : String)
  | char (c : Char)
  | string (s : String)
  | type (t : TypeRef)
  | enumMember (name : String)
  /-- An instance of a class that holds captured variables. -/
  | closure (fields : List (Captured ConstantValue))
  /-- Any other object, by its text. -/
  | object (text : String)
deriving Repr, Inhabited

namespace ConstantValue

mutual

def decideEq : (a b : ConstantValue) → Decidable (a = b)
  | .closure xs, .closure ys =>
    match decideEqFields xs ys with
    | isTrue h => isTrue (by rw [h])
    | isFalse h => isFalse (by simpa using h)
  | .null, b => by cases b <;> simp <;> infer_instance
  | .bool _, b => by cases b <;> simp <;> infer_instance
  | .int _, b => by cases b <;> simp <;> infer_instance
  | .uint _, b => by cases b <;> simp <;> infer_instance
  | .float _, b => by cases b <;> simp <;> infer_instance
  | .decimal _, b => by cases b <;> simp <;> infer_instance
  | .char _, b => by cases b <;> simp <;> infer_instance
  | .string _, b => by cases b <;> simp <;> infer_instance
  | .type _, b => by cases b <;> simp <;> infer_instance
  | .enumMember _, b => by cases b <;> simp <;> infer_instance
  | .object _, b => by cases b <;> simp <;> infer_instance
  | .closure _, .null | .closure _, .bool _ | .closure _, .int _ | .closure _, .uint _
  | .closure _, .float _ | .closure _, .decimal _ | .closure _, .char _ | .closure _, .string _
  | .closure _, .type _ | .closure _, .enumMember _ | .closure _, .object _ =>
    isFalse (by simp)

def decideEqFields : (xs ys : List (Captured ConstantValue)) → Decidable (xs = ys)
  | [], [] => isTrue rfl
  | [], _ :: _ => isFalse (by simp)
  | _ :: _, [] => isFalse (by simp)
  | ⟨n, t, v⟩ :: xs, ⟨n', t', v'⟩ :: ys =>
    match decideEq v v', decideEqFields xs ys with
    | isTrue hv, isTrue hs =>
      if h : n = n' ∧ t = t' then isTrue (by rw [hv, hs, h.1, h.2])
      else isFalse (by
        intro e
        simp only [List.cons.injEq, Captured.mk.injEq] at e
        exact h ⟨e.1.1, e.1.2.1⟩)
    | isFalse hv, _ => isFalse (by simp [hv])
    | _, isFalse hs => isFalse (by simp [hs])

end

instance : DecidableEq ConstantValue := decideEq

/-- Holds captured variables. -/
def isClosure : ConstantValue → Bool
  | .closure _ => true
  | _ => false

/-- Written with a leading minus sign, as far as the value alone tells. -/
def isNegative : ConstantValue → Bool
  | .int n => n < 0
  | .float x => x.isNegative
  | _ => false

end ConstantValue

/-- A constant with its type. -/
structure Constant where
  value : ConstantValue
  ty : TypeRef
deriving DecidableEq, Repr

end TreeScribe
