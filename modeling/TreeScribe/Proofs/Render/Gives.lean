import Mathlib.Data.List.Forall2
import TreeScribe.Settings.Basic

/-! Properties of all results of a rendering, whatever has been declared before it. -/
namespace TreeScribe

variable {α β : Type}

/-- The result has the property, whatever was declared before. -/
def Gives (x : Rendering α) (P : α → Prop) : Prop := ∀ declared, P (x.run declared).1

namespace Gives

variable {P Q : α → Prop} {R : β → Prop}

theorem pure {a : α} (h : P a) : Gives (Pure.pure a) P := fun _ => h

theorem bind {x : Rendering α} {f : α → Rendering β} (hx : Gives x P)
    (hf : ∀ a, P a → Gives (f a) R) : Gives (x >>= f) R :=
  fun declared => hf _ (hx declared) _

theorem map {x : Rendering α} {f : α → β} (hx : Gives x P) (hf : ∀ a, P a → R (f a)) :
    Gives (f <$> x) R :=
  fun declared => hf _ (hx declared)

/-- When nothing need be known of what comes first. -/
theorem after {x : Rendering α} {f : α → Rendering β} (hf : ∀ a, Gives (f a) R) :
    Gives (x >>= f) R :=
  fun _ => hf _ _

theorem mono {x : Rendering α} (hx : Gives x P) (h : ∀ a, P a → Q a) : Gives x Q :=
  fun declared => h _ (hx declared)

theorem and {x : Rendering α} (hP : Gives x P) (hQ : Gives x Q) :
    Gives x fun a => P a ∧ Q a :=
  fun declared => ⟨hP declared, hQ declared⟩

/-- The results of a list, one for each of its elements. -/
theorem mapM_forall₂ {f : α → Rendering β} {S : α → β → Prop} {as : List α}
    (h : ∀ a ∈ as, Gives (f a) (S a)) : Gives (as.mapM f) (List.Forall₂ S as) := by
  induction as with
  | nil =>
    rw [List.mapM_nil]
    exact .pure .nil
  | cons a as ih =>
    rw [List.mapM_cons]
    refine (h a (List.mem_cons_self ..)).bind fun b hb => ?_
    refine (ih fun a' ha => h a' (List.mem_cons_of_mem _ ha)).bind fun bs hbs => ?_
    exact .pure (.cons hb hbs)

theorem mapM {f : α → Rendering β} {as : List α} (h : ∀ a ∈ as, Gives (f a) R) :
    Gives (as.mapM f) fun bs => ∀ b ∈ bs, R b := by
  refine (mapM_forall₂ (S := fun _ b => R b) h).mono fun bs hbs => ?_
  induction hbs with
  | nil => exact fun b hb => nomatch hb
  | cons hb _ ih =>
    intro b' hb'
    rcases List.mem_cons.mp hb' with rfl | hb'
    · exact hb
    · exact ih (fun a ha => h a (List.mem_cons_of_mem _ ha)) b' hb'

end Gives
end TreeScribe
