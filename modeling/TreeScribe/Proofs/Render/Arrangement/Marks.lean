import TreeScribe.Proofs.Render.Arrangement.Basic

/-! Renderings that add the marks of their pieces to those that are there. -/
namespace TreeScribe

/-! ### Marks of atoms -/

namespace Atoms

@[simp] theorem marks_nil : marks [] = [] := rfl

@[simp] theorem marks_append (as bs : Atoms) : marks (as ++ bs) = marks as ++ marks bs :=
  List.filter_append ..

@[simp] theorem marks_token (cls : TokenClass) (s : String) : marks (token cls s) = [] := by
  unfold token
  split <;> rfl

@[simp] theorem marks_text (s : String) : marks (text s) = [] := marks_token ..

@[simp] theorem marks_space : marks space = [] := marks_text ..

@[simp] theorem marks_keyword (s : String) : marks (keyword s) = [] := marks_token ..

@[simp] theorem marks_control (s : String) : marks (control s) = [] := marks_token ..

@[simp] theorem marks_varName (s : String) : marks (varName s) = [] := marks_token ..

@[simp] theorem marks_methodName (s : String) : marks (methodName s) = [] := marks_token ..

@[simp] theorem marks_operator (level : Level) (s : String) : marks (operator level s) = [] := rfl

@[simp] theorem marks_operatorAtom (level : Level) (cls : TokenClass) (s : String) :
    marks [.operator level cls s] = [] :=
  rfl

@[simp] theorem marks_operatorWord (level : Level) (s : String) :
    marks (operatorWord level s) = [] :=
  rfl

@[simp] theorem marks_newline : marks newline = [] := rfl

@[simp] theorem marks_mention (node : Nat) (s : String) :
    marks (mention node s) = mention node s := by
  unfold mention
  split <;> rfl

theorem marks_note {n : Note} (h : n.isMark = true) : marks (note n) = note n := by
  simp [marks, note, Atom.isMark, h]

@[simp] theorem marks_labelLine (target : Target) :
    marks (labelLine target) = note (.label target) := by
  have hnote : (Note.label target).isMark = true := rfl
  simp [labelLine, marks_note hnote]

@[simp] theorem marks_enclosed (node : Nat) (as : Atoms) :
    marks (enclosed node as) = note (.opens node) ++ marks as ++ note (.closes node) := by
  rw [enclosed, marks_append, marks_append, marks_note rfl, marks_note rfl]

@[simp] theorem marks_bracketed (opening closing : String) (as : Atoms) :
    marks (bracketed opening closing as) = marks as := by
  simp [bracketed, marks, Atom.isMark]

@[simp] theorem marks_parens (as : Atoms) : marks (parens as) = marks as := marks_bracketed ..

@[simp] theorem marks_indented (as : Atoms) : marks (indented as) = marks as := by
  simp [indented, marks, Atom.isMark]

@[simp] theorem marks_typeName (options : TypeNameOptions) (t : TypeRef) :
    marks (typeName options t) = [] := by
  rw [typeName, note, marks, List.filter_append, List.append_eq_nil_iff]
  refine ⟨rfl, List.filter_eq_nil_iff.mpr fun a ha => ?_⟩
  obtain ⟨s, -, rfl⟩ := List.mem_map.mp ha
  exact Bool.false_ne_true

@[simp] theorem marks_joinedBy {separator : Atoms} (h : marks separator = []) (parts : List Atoms) :
    marks (joinedBy separator parts) = parts.flatMap marks := by
  induction parts with
  | nil => rfl
  | cons as parts ih =>
    cases parts with
    | nil => simp [joinedBy]
    | cons bs parts =>
      have hjoined : joinedBy separator (as :: bs :: parts) =
          as ++ separator ++ joinedBy separator (bs :: parts) :=
        rfl
      rw [hjoined, marks_append, marks_append, h, ih, List.append_nil]
      rfl

@[simp] theorem marks_separated (separator : String) (parts : List Atoms) :
    marks (separated separator parts) = parts.flatMap marks :=
  marks_joinedBy (marks_text _) parts

@[simp] theorem marks_flatMap {α : Type} (f : α → Atoms) (xs : List α) :
    marks (xs.flatMap f) = xs.flatMap fun x => marks (f x) := by
  induction xs with
  | nil => rfl
  | cons x xs ih => rw [List.flatMap_cons, marks_append, ih, List.flatMap_cons]

@[simp] theorem marks_when (condition : Bool) (as : Atoms) :
    marks (Atoms.when condition as) = if condition then marks as else [] := by
  cases condition <;> rfl

end Atoms

namespace Doc

@[simp] theorem marks_parenthesized (d : Doc) : d.parenthesized.marks = d.marks :=
  Atoms.marks_parens _

@[simp] theorem marks_terminated (d : Doc) : d.terminated.marks = d.marks := by
  unfold terminated
  split
  · rfl
  · simp [marks]

@[simp] theorem marks_braced (d : Doc) : d.braced.marks = d.marks := by
  unfold braced marks
  dsimp only
  split
  next h => simp [List.isEmpty_iff.mp h]
  · simp

theorem marks_noted (d : Doc) (node : Nat) :
    (d.noted node).marks = d.marks ++ if d.isEmpty then [] else Atoms.note (.written node) := by
  unfold Doc.noted
  split
  · rw [List.append_nil]
  · exact Atoms.marks_append ..

@[simp] theorem marks_returned (d : Doc) : d.returned.marks = d.marks := by
  simp [returned, marks]

end Doc

@[simp] theorem Render.marks_separated (separator : String) (ds : List Doc) :
    (separated separator ds).marks = ds.flatMap Doc.marks := by
  rw [separated, Atoms.marks_separated, List.flatMap_map]
  rfl

/-! ### Renderings that add marks -/

section Adds

variable {env : Env} {α β γ : Type} {μ : α → List Atom} {ν : β → List Atom} {ξ : γ → List Atom}

/-- The rendering makes these pieces: its result has the marks that were there before and those
of the pieces, and it declares what they declare. -/
def Adds (env : Env) (μ : α → List Atom) (x : Rendering α) (before : List Atom)
    (steps : List Step) : Prop :=
  ∀ declared, μ (x.run declared).1 = before ++ ((env.marksOf steps).run declared).1 ∧
    (x.run declared).2 = ((env.marksOf steps).run declared).2

namespace Adds

variable {x : Rendering α} {y : Rendering β} {before : List Atom} {steps : List Step}

theorem pure {a : α} (h : μ a = before) : Adds env μ (Pure.pure a) before [] :=
  fun _ => ⟨by rw [← h]; exact (List.append_nil _).symm, rfl⟩

theorem append_of {first : List Step} {f : α → Rendering β} (hx : Adds env μ x [] first)
    {P : α → Prop} (hP : Gives x P)
    (hf : ∀ a, P a → Adds env ν (f a) (before ++ μ a) steps) :
    Adds env ν (x >>= f) before (first ++ steps) := by
  intro declared
  obtain ⟨hmarks, hdeclared⟩ := hx declared
  obtain ⟨hrest, hend⟩ := hf (x.run declared).1 (hP declared) (x.run declared).2
  rw [hmarks, hdeclared] at hrest
  rw [hdeclared] at hend
  rw [env.marksOf_append]
  show ν ((f (x.run declared).1).run (x.run declared).2).1 = before ++ (_ ++ _) ∧
    ((f (x.run declared).1).run (x.run declared).2).2 = _
  rw [hdeclared]
  exact ⟨hrest.trans (List.append_assoc ..), hend⟩

theorem append {first : List Step} {f : α → Rendering β} (hx : Adds env μ x [] first)
    (hf : ∀ a, Adds env ν (f a) (before ++ μ a) steps) :
    Adds env ν (x >>= f) before (first ++ steps) :=
  hx.append_of (P := fun _ => True) (fun _ => trivial) fun a _ => hf a

theorem cons {step : Step} {f : α → Rendering β} (hx : Adds env μ x [] [step])
    (hf : ∀ a, Adds env ν (f a) (before ++ μ a) steps) :
    Adds env ν (x >>= f) before (step :: steps) :=
  hx.append hf

/-- A note is written without making anything. -/
theorem note {n : Note} (hx : Adds env μ x (before ++ Atoms.note n) steps) :
    Adds env μ x before (Arrangement.note n :: steps) := by
  intro declared
  obtain ⟨hmarks, hdeclared⟩ := hx declared
  exact ⟨hmarks.trans (List.append_assoc ..), hdeclared⟩

/-- When nothing more is made. -/
theorem last {f : α → β} (hx : Adds env μ x [] steps) (hf : ∀ a, ν (f a) = before ++ μ a) :
    Adds env ν (do return f (← x)) before steps := by
  have hdone := hx.append (f := fun a => Pure.pure (f a)) fun a => pure (hf a)
  rwa [List.append_nil] at hdone

theorem map {f : α → β} (hx : Adds env μ x before steps) (hf : ∀ a, ν (f a) = μ a) :
    Adds env ν (do return f (← x)) before steps :=
  fun declared => ⟨(hf _).trans (hx declared).1, (hx declared).2⟩

/-- Two pieces that are made in the order opposite to the text. -/
theorem swapped {p q : Piece} {f : α → β → Rendering γ} (hx : Adds env μ x [] [.one q])
    (hy : Adds env ν y [] [.one p])
    (hf : ∀ a b, Adds env ξ (f a b) (before ++ ν b ++ μ a) steps) :
    Adds env ξ (do f (← x) (← y)) before (.swapped p q :: steps) := by
  intro declared
  obtain ⟨hsecond, hmid⟩ := hx declared
  obtain ⟨hfirst, hdone⟩ := hy (x.run declared).2
  obtain ⟨hrest, hend⟩ := hf (x.run declared).1 (y.run (x.run declared).2).1
    (y.run (x.run declared).2).2
  rw [env.marksOf_one, List.nil_append] at hsecond hfirst
  rw [env.marksOf_one] at hmid hdone
  refine ⟨hrest.trans ?_, hend.trans ?_⟩
  · rw [hsecond, hfirst, hdone, hmid, List.append_assoc before, List.append_assoc before]
    rfl
  · rw [hdone, hmid]
    rfl

end Adds

end Adds

/-! ### Children -/

namespace Render

open Arrangement

variable (env : Env)

theorem adds_inPosition (position : Position) (e : Expr) :
    Adds env Doc.marks ((env.renderer e).inPosition position) []
      [.one (.child (.inPosition position) e)] := by
  intro declared
  rw [env.marksOf_one]
  exact ⟨rfl, rfl⟩

theorem adds_value (e : Expr) : Adds env Doc.marks (value (env.child e)) [] [Arrangement.value e] :=
  adds_inPosition env .value e

theorem adds_body (returns : Bool) (e : Expr) :
    Adds env Doc.marks ((env.renderer e).body returns) [] [body returns e] := by
  intro declared
  rw [body, env.marksOf_one]
  exact ⟨rfl, rfl⟩

theorem adds_chained (returns : Bool) (e : Expr) :
    Adds env Doc.marks ((env.renderer e).chained returns) [] [.one (.child (.chained returns) e)] := by
  intro declared
  rw [env.marksOf_one]
  exact ⟨rfl, rfl⟩

theorem adds_landing (returns : Bool) (e : Expr) :
    Adds env Doc.marks ((env.renderer e).landing returns) [] [.one (.child (.landing returns) e)] := by
  intro declared
  rw [env.marksOf_one]
  exact ⟨rfl, rfl⟩

theorem adds_elements (e : Expr) :
    Adds env (List.flatMap Doc.marks) (env.renderer e).elements [] [.one (.child .elements e)] := by
  intro declared
  rw [env.marksOf_one]
  exact ⟨rfl, rfl⟩

theorem adds_operand (e : Expr) (level : Level) :
    Adds env Doc.marks (operand (env.child e) level) [] [Arrangement.value e] := by
  refine (adds_value env e).cons fun d => .pure ?_
  split <;> simp

theorem adds_mapM {f : Child → Rendering Doc}
    (hf : ∀ e, Adds env Doc.marks (f (env.child e)) [] [Arrangement.value e]) (es : List Expr) :
    Adds env (List.flatMap Doc.marks) ((es.map env.child).mapM f) [] (Arrangement.values es) := by
  induction es with
  | nil =>
    rw [List.map_nil, List.mapM_nil]
    exact .pure rfl
  | cons e es ih =>
    rw [List.map_cons, List.mapM_cons]
    exact (hf e).cons fun d => ih.last fun ds => rfl

theorem adds_values (es : List Expr) :
    Adds env (List.flatMap Doc.marks) (values (es.map env.child)) [] (Arrangement.values es) :=
  adds_mapM env (adds_value env) es

end Render

end TreeScribe
