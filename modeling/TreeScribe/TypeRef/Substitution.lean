import TreeScribe.TypeRef.Basic

/-! Closing a type over generic arguments.

`substitute` replaces generic parameters by arguments in element types and generic arguments.
A type that mentions none of the parameters is left alone as a whole. -/
namespace TreeScribe.TypeRef

mutual

/-- Whether `p` occurs in a type: the type itself, its element type or one of its arguments. -/
def occursIn (p : TypeRef) : TypeRef → Bool
  | ⟨k, ns, n, d, as, e, r, an, cl⟩ =>
    decide ((⟨k, ns, n, d, as, e, r, an, cl⟩ : TypeRef) = p) || occursInElement p e ||
      occursInAny p as

def occursInElement (p : TypeRef) : Option TypeRef → Bool
  | none => false
  | some t => occursIn p t

def occursInAny (p : TypeRef) : List TypeRef → Bool
  | [] => false
  | t :: ts => occursIn p t || occursInAny p ts

end

/-- The argument that stands for `t`, if `t` is a parameter with one. -/
def argumentFor? (ps as : List TypeRef) (t : TypeRef) : Option TypeRef :=
  match ps.findIdx? (· = t) with
  | some i => as[i]?
  | none => none

mutual

/-- Replaces each parameter of `ps` by the argument of `as` at its place. -/
def substitute (ps as : List TypeRef) : TypeRef → TypeRef
  | ⟨k, ns, n, d, ts, e, r, an, cl⟩ =>
    let t : TypeRef := ⟨k, ns, n, d, ts, e, r, an, cl⟩
    match argumentFor? ps as t with
    | some a => a
    | none =>
      if ps.any (occursIn · t) then
        ⟨k, ns, n, d, substituteAll ps as ts, substituteElement ps as e, r, an, cl⟩
      else t

def substituteElement (ps as : List TypeRef) : Option TypeRef → Option TypeRef
  | none => none
  | some t => some (substitute ps as t)

def substituteAll (ps as : List TypeRef) : List TypeRef → List TypeRef
  | [] => []
  | t :: ts => substitute ps as t :: substituteAll ps as ts

end

end TreeScribe.TypeRef
