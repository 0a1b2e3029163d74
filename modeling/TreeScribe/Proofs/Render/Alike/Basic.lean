import Mathlib.Data.List.Forall2
import TreeScribe.Proofs.Render.Occurrences
import TreeScribe.Proofs.Tree.Relabel

/-! Atoms, renderings and documents that agree for a tree and its twin.

What it means for the pieces of a node to agree is left open: they match up to some base relation,
which layout must not be able to see. -/
namespace TreeScribe

open Atoms

/-! ### Matching atoms -/

/-- What layout can see of an atom. -/
def Atom.outline (a : Atom) : Nat × Bool := (a.size, a == .newline)

def Atoms.outline (as : Atoms) : List (Nat × Bool) := as.map Atom.outline

namespace Atoms

variable {as bs : Atoms}

@[simp] theorem outline_append (as bs : Atoms) : outline (as ++ bs) = outline as ++ outline bs :=
  List.map_append

theorem isEmpty_eq_of_outline (h : outline as = outline bs) : as.isEmpty = bs.isEmpty := by
  have hempty := congrArg List.isEmpty h
  simpa only [outline, List.isEmpty_map] using hempty

theorem size_eq_of_outline (h : outline as = outline bs) :
    (as.map Atom.size).sum = (bs.map Atom.size).sum := by
  have hsizes := congrArg (List.map Prod.fst) h
  simp only [outline, List.map_map] at hsizes
  exact congrArg List.sum hsizes

theorem count_eq_of_outline (h : outline as = outline bs) : as.count .newline = bs.count .newline := by
  have hcount (cs : Atoms) : cs.count .newline = (outline cs).countP (·.2) := by
    rw [outline, List.countP_map]
    rfl
  rw [hcount, hcount, h]

end Atoms

/-- The atoms agree up to the base relation. -/
inductive Matches (base : Atoms → Atoms → Prop) : Atoms → Atoms → Prop where
  | nil : Matches base [] []
  | base {as bs : Atoms} : base as bs → Matches base as bs
  | plain {a : Atom} : a.isFlat = true → a.isMark = false → Matches base [a] [a]
  /-- Layout cannot see notes. -/
  | note (n n' : Note) : Matches base (Atoms.note n) (Atoms.note n')
  | append {as bs as' bs' : Atoms} : Matches base as bs → Matches base as' bs' →
      Matches base (as ++ as') (bs ++ bs')
  | indented {as bs : Atoms} : Matches base as bs → Matches base (Atoms.indented as) (Atoms.indented bs)
  | bracketed {as bs : Atoms} (opening closing : String) : Matches base as bs →
      Matches base (Atoms.bracketed opening closing as) (Atoms.bracketed opening closing bs)

namespace Matches

variable {base : Atoms → Atoms → Prop}

attribute [grind ←] Matches.nil Matches.append Matches.indented Matches.bracketed

@[grind ←] theorem token (cls : TokenClass) (s : String) :
    Matches base (Atoms.token cls s) (Atoms.token cls s) := by
  unfold Atoms.token
  split
  · exact .nil
  · exact .plain rfl rfl

@[grind ←] theorem text (s : String) : Matches base (Atoms.text s) (Atoms.text s) := token _ s

@[grind ←] theorem space : Matches base Atoms.space Atoms.space := text _

@[grind ←] theorem keyword (s : String) : Matches base (Atoms.keyword s) (Atoms.keyword s) := token _ s

@[grind ←] theorem control (s : String) : Matches base (Atoms.control s) (Atoms.control s) := token _ s

@[grind ←] theorem varName (s : String) : Matches base (Atoms.varName s) (Atoms.varName s) := token _ s

@[grind ←] theorem methodName (s : String) :
    Matches base (Atoms.methodName s) (Atoms.methodName s) :=
  token _ s

@[grind ←] theorem operator (level : Level) (sign : String) :
    Matches base (Atoms.operator level sign) (Atoms.operator level sign) :=
  .plain rfl rfl

@[grind ←] theorem operatorWord (level : Level) (word : String) :
    Matches base (Atoms.operatorWord level word) (Atoms.operatorWord level word) :=
  .plain rfl rfl

@[grind ←] theorem operatorAtom (level : Level) (cls : TokenClass) (sign : String) :
    Matches base [.operator level cls sign] [.operator level cls sign] :=
  .plain rfl rfl

@[grind ←] theorem newline : Matches base Atoms.newline Atoms.newline := .plain rfl rfl

@[grind ←] theorem parens {as bs : Atoms} (h : Matches base as bs) :
    Matches base (Atoms.parens as) (Atoms.parens bs) :=
  .bracketed _ _ h

theorem cast {as as' bs bs' : Atoms} (has : as = as') (hbs : bs = bs') (h : Matches base as' bs') :
    Matches base as bs := by
  rw [has, hbs]
  exact h

theorem of_tokens {as : Atoms} (h : ∀ a ∈ as, ∃ cls s, a = .token cls s) : Matches base as as := by
  induction as with
  | nil => exact .nil
  | cons a as ih =>
    obtain ⟨cls, s, rfl⟩ := h a (List.mem_cons_self ..)
    have hone : Matches base [.token cls s] [.token cls s] := .plain rfl rfl
    exact hone.append (ih fun b hb => h b (List.mem_cons_of_mem _ hb))

@[grind ←] theorem typeName (options : TypeNameOptions) (t : TypeRef) :
    Matches base (Atoms.typeName options t) (Atoms.typeName options t) := by
  refine (note _ _).append (of_tokens fun a ha => ?_)
  obtain ⟨s, -, rfl⟩ := List.mem_map.mp ha
  exact ⟨_, _, rfl⟩

@[grind ←] theorem labelLine (target : Target) :
    Matches base (Atoms.labelLine target) (Atoms.labelLine target) :=
  ((note _ _).append (text _)).append (text _)

@[grind ←] theorem enclosed (node node' : Nat) {as bs : Atoms} (h : Matches base as bs) :
    Matches base (Atoms.enclosed node as) (Atoms.enclosed node' bs) :=
  ((note _ _).append h).append (note _ _)

theorem joinedBy {separator : Atoms} (hs : Matches base separator separator)
    {parts parts' : List Atoms} (h : List.Forall₂ (Matches base) parts parts') :
    Matches base (Atoms.joinedBy separator parts) (Atoms.joinedBy separator parts') := by
  induction h with
  | nil => exact .nil
  | cons has hrest ih =>
    cases hrest with
    | nil => exact has
    | cons _ _ => exact .append (.append has hs) ih

@[grind ←] theorem separated (separator : String) {parts parts' : List Atoms}
    (h : List.Forall₂ (Matches base) parts parts') :
    Matches base (Atoms.separated separator parts) (Atoms.separated separator parts') :=
  joinedBy (text separator) h

@[grind ←] theorem «when» (condition : Bool) {as bs : Atoms} (h : Matches base as bs) :
    Matches base (Atoms.when condition as) (Atoms.when condition bs) := by
  unfold Atoms.when
  split
  · exact h
  · exact .nil

theorem flatten {parts parts' : List Atoms} (h : List.Forall₂ (Matches base) parts parts') :
    Matches base parts.flatten parts'.flatten := by
  induction h with
  | nil => exact .nil
  | cons has _ ih => exact .append has ih

theorem outline (hbase : ∀ as bs, base as bs → Atoms.outline as = Atoms.outline bs) {as bs : Atoms}
    (h : Matches base as bs) : Atoms.outline as = Atoms.outline bs := by
  induction h with
  | nil => rfl
  | base h => exact hbase _ _ h
  | plain _ _ => rfl
  | note n n' => rfl
  | append _ _ ih ih' => rw [outline_append, outline_append, ih, ih']
  | indented _ ih => rw [Atoms.indented, Atoms.indented, outline_append, outline_append, outline_append,
      outline_append, ih]
  | bracketed opening closing _ ih => rw [Atoms.bracketed, Atoms.bracketed, outline_append,
      outline_append, outline_append, outline_append, ih]

end Matches

/-! ### Renderings that agree -/

section Alike

variable {α β γ δ : Type}

/-- The results agree, and the same variables are declared. -/
def Alike (P : α → β → Prop) (x : Rendering α) (y : Rendering β) : Prop :=
  ∀ declared, P (x.run declared).1 (y.run declared).1 ∧ (x.run declared).2 = (y.run declared).2

namespace Alike

variable {P : α → β → Prop} {Q : γ → δ → Prop} {x : Rendering α} {y : Rendering β}

theorem pure {a : α} {b : β} (h : P a b) : Alike P (Pure.pure a) (Pure.pure b) := fun _ => ⟨h, rfl⟩

/-- When more is known of the first result. -/
theorem bind_of {f : α → Rendering γ} {g : β → Rendering δ} (hx : Alike P x y) {R : α → Prop}
    (hR : Gives x R) (hf : ∀ a b, P a b → R a → Alike Q (f a) (g b)) :
    Alike Q (x >>= f) (y >>= g) := by
  intro declared
  obtain ⟨hP, hdeclared⟩ := hx declared
  have hnext := hf _ _ hP (hR declared) (x.run declared).2
  show Q ((f (x.run declared).1).run (x.run declared).2).1
      ((g (y.run declared).1).run (y.run declared).2).1 ∧
    ((f (x.run declared).1).run (x.run declared).2).2 =
      ((g (y.run declared).1).run (y.run declared).2).2
  rw [← hdeclared]
  exact hnext

theorem bind {f : α → Rendering γ} {g : β → Rendering δ} (hx : Alike P x y)
    (hf : ∀ a b, P a b → Alike Q (f a) (g b)) : Alike Q (x >>= f) (y >>= g) :=
  hx.bind_of (fun _ => trivial) fun a b h (_ : True) => hf a b h

/-- When nothing more is made. -/
theorem last {f : α → γ} {g : β → δ} (hx : Alike P x y) (hf : ∀ a b, P a b → Q (f a) (g b)) :
    Alike Q (do return f (← x)) (do return g (← y)) :=
  hx.bind fun a b h => pure (hf a b h)

theorem mono {P' : α → β → Prop} (hx : Alike P x y) (h : ∀ a b, P a b → P' a b) : Alike P' x y :=
  fun declared => ⟨h _ _ (hx declared).1, (hx declared).2⟩

/-- The results of two lists that are made from one. -/
theorem mapM {ε : Type} {f : α → Rendering γ} {g : β → Rendering δ} {h : ε → α} {k : ε → β}
    {es : List ε} (hf : ∀ e ∈ es, Alike Q (f (h e)) (g (k e))) :
    Alike (List.Forall₂ Q) ((es.map h).mapM f) ((es.map k).mapM g) := by
  induction es with
  | nil =>
    rw [List.map_nil, List.map_nil, List.mapM_nil, List.mapM_nil]
    exact pure .nil
  | cons e es ih =>
    rw [List.map_cons, List.map_cons, List.mapM_cons, List.mapM_cons]
    refine (hf e (List.mem_cons_self ..)).bind fun c d hcd => ?_
    exact (ih fun e' he => hf e' (List.mem_cons_of_mem _ he)).last fun cs ds hcs => .cons hcd hcs

end Alike

end Alike

/-! ### Twins -/

/-- Documents of the same sort. -/
structure Doc.SameSort (d d' : Doc) : Prop where
  kind : d.kind = d'.kind
  ty : d.ty = d'.ty
  isTerminated : d.isTerminated = d'.isTerminated
  endsWithJump : d.endsWithJump = d'.endsWithJump
  isAbsent : d.isAbsent = d'.isAbsent

/-- Two environments, for a tree and for its twin with other labels. -/
structure Twins where
  settings : Settings
  analysis : Analysis
  other : Analysis
  calls : List (Nat × ExtractedCall)
  label : Nat → Nat
  /-- Atoms that count as the same. -/
  base : Atoms → Atoms → Prop
  custom : settings.custom = []
  isJumpTarget : ∀ t, other.isJumpTarget t = analysis.isJumpTarget t
  outline : ∀ as bs, base as bs → as.outline = bs.outline

namespace Twins

variable (T : Twins)

def env : Env := { settings := T.settings, analysis := T.analysis, calls := T.calls }

def twin : Env := { settings := T.settings, analysis := T.other, calls := T.calls }

theorem settings_env : T.env.settings = T.settings := rfl

theorem settings_twin : T.twin.settings = T.settings := rfl

/-- A tree with what can be made of it. -/
abbrev child (e : Expr) : Render.Child := T.env.child e

/-- The twin of a tree, with what can be made of it. -/
abbrev twinOf (e : Expr) : Render.Child := T.twin.child (e.relabel T.label)

/-- Documents that agree as parts of others. -/
structure Part (d d' : Doc) : Prop extends d.SameSort d' where
  atoms : Matches T.base d.atoms d'.atoms

/-- Documents that agree as lines of their own. -/
structure Body (d d' : Doc) : Prop extends d.SameSort d' where
  atoms : Matches T.base (Atoms.newline ++ d.atoms) (Atoms.newline ++ d'.atoms)

/-- Documents that agree once they are closed, as lines of their own. -/
structure Line (d d' : Doc) : Prop extends d.SameSort d' where
  atoms : Matches T.base (Atoms.newline ++ d.terminated.atoms) (Atoms.newline ++ d'.terminated.atoms)

variable {T} {d d' : Doc}

theorem outline_eq {as bs : Atoms} (h : Matches T.base as bs) : as.outline = bs.outline :=
  h.outline T.outline

namespace Part

theorem outline (h : T.Part d d') : d.atoms.outline = d'.atoms.outline := outline_eq h.atoms

theorem size (h : T.Part d d') : d.size = d'.size := size_eq_of_outline h.outline

theorem isEmpty (h : T.Part d d') : d.isEmpty = d'.isEmpty := isEmpty_eq_of_outline h.outline

theorem lines (h : T.Part d d') : d.lines = d'.lines := by
  rw [Doc.lines, Doc.lines, h.isAbsent, count_eq_of_outline h.outline]

theorem isMultiLine (h : T.Part d d') : d.isMultiLine = d'.isMultiLine := by
  rw [Doc.isMultiLine, Doc.isMultiLine, h.lines]

theorem parenthesized (h : T.Part d d') : T.Part d.parenthesized d'.parenthesized :=
  ⟨⟨h.kind, h.ty, rfl, rfl, rfl⟩, .parens h.atoms⟩

theorem returned (h : T.Part d d') : T.Part d.returned d'.returned :=
  ⟨⟨h.kind, h.ty, rfl, rfl, rfl⟩, .append (.append (.control _) .space) h.atoms⟩

theorem terminated (h : T.Part d d') : T.Part d.terminated d'.terminated := by
  unfold Doc.terminated
  rw [← h.isTerminated]
  split
  · exact h
  · exact ⟨⟨h.kind, h.ty, rfl, h.endsWithJump, rfl⟩, .append h.atoms (.text _)⟩

theorem noted (h : T.Part d d') (node node' : Nat) : T.Part (d.noted node) (d'.noted node') := by
  unfold Doc.noted
  rw [← h.isEmpty]
  split
  · exact h
  · exact ⟨⟨h.kind, h.ty, h.isTerminated, h.endsWithJump, h.isAbsent⟩, .append h.atoms (.note _ _)⟩

theorem line (h : T.Part d d') : T.Line d d' :=
  ⟨h.toSameSort, .append .newline h.terminated.atoms⟩

theorem body (h : T.Part d d') : T.Body d d' := ⟨h.toSameSort, .append .newline h.atoms⟩

end Part

namespace Body

theorem outline (h : T.Body d d') : d.atoms.outline = d'.atoms.outline :=
  (List.cons.inj (outline_eq h.atoms)).2

theorem isEmpty (h : T.Body d d') : d.isEmpty = d'.isEmpty := isEmpty_eq_of_outline h.outline

theorem isMultiLine (h : T.Body d d') : d.isMultiLine = d'.isMultiLine := by
  rw [Doc.isMultiLine, Doc.isMultiLine, Doc.lines, Doc.lines, h.isAbsent,
    count_eq_of_outline h.outline]

theorem braced (h : T.Body d d') : T.Part d.braced d'.braced := by
  have hempty := h.isEmpty
  refine ⟨⟨h.kind, h.ty, rfl, ?_, rfl⟩, .bracketed _ _ (.append ?_ .newline)⟩
  · show (!d.isEmpty && d.endsWithJump) = (!d'.isEmpty && d'.endsWithJump)
    rw [hempty, h.endsWithJump]
  · rw [← hempty]
    split
    · exact .nil
    · exact .indented h.atoms

theorem noted (h : T.Body d d') (node node' : Nat) : T.Body (d.noted node) (d'.noted node') := by
  unfold Doc.noted
  rw [← h.isEmpty]
  split
  · exact h
  · refine ⟨⟨h.kind, h.ty, h.isTerminated, h.endsWithJump, h.isAbsent⟩, ?_⟩
    exact .cast (List.append_assoc ..).symm (List.append_assoc ..).symm (.append h.atoms (.note _ _))

/-- A document that is closed already agrees as a line. -/
theorem line (h : T.Body d d') (hclosed : d.isTerminated = true) : T.Line d d' := by
  refine ⟨h.toSameSort, ?_⟩
  rw [Doc.terminated, if_pos hclosed, Doc.terminated, if_pos (h.isTerminated ▸ hclosed)]
  exact h.atoms

end Body

namespace Line

theorem terminated (h : T.Line d d') : T.Body d.terminated d'.terminated := by
  refine ⟨?_, h.atoms⟩
  unfold Doc.terminated
  rw [← h.isTerminated]
  split
  · exact h.toSameSort
  · exact ⟨h.kind, h.ty, rfl, h.endsWithJump, rfl⟩

theorem isEmpty (h : T.Line d d') : d.isEmpty = d'.isEmpty := by
  have houtline := h.terminated.outline
  unfold Doc.terminated at houtline
  rw [← h.isTerminated] at houtline
  split at houtline
  · exact isEmpty_eq_of_outline houtline
  · rw [outline_append, outline_append] at houtline
    exact isEmpty_eq_of_outline (List.append_cancel_right houtline)

end Line

/-- Documents of statements that agree: as they are, or as lines of their own that are closed. -/
inductive Statement (T : Twins) (d d' : Doc) : Prop where
  | part : T.Part d d' → Statement T d d'
  | closed : T.Body d d' → d.isTerminated = true → Statement T d d'

theorem Statement.noted (h : T.Statement d d') (node node' : Nat) :
    T.Line (d.noted node) (d'.noted node') := by
  cases h with
  | part h => exact (h.noted node node').line
  | closed h hclosed =>
    refine (h.noted node node').line ?_
    unfold Doc.noted
    split <;> exact hclosed

/-- What two renderers make agrees in some way of asking. -/
def Made (T : Twins) : Mode → Renderer → Renderer → Prop
  | .inPosition .value, r, r' => Alike T.Part (r.inPosition .value) (r'.inPosition .value)
  | .inPosition p, r, r' => Alike T.Line (r.inPosition p) (r'.inPosition p)
  | .body returns, r, r' => Alike T.Body (r.body returns) (r'.body returns)
  | .chained returns, r, r' => Alike T.Part (r.chained returns) (r'.chained returns)
  | .landing returns, r, r' => Alike T.Line (r.landing returns) (r'.landing returns)
  | .elements, r, r' => Alike (List.Forall₂ T.Part) r.elements r'.elements

/-- A piece agrees with its twin. -/
def Agrees (T : Twins) : Piece → Prop
  | .child mode e => T.Made mode (T.env.renderer e) (T.twin.renderer (e.relabel T.label))
  | .output e => Alike (Matches T.base) (Render.outputAtoms T.env (T.child e))
      (Render.outputAtoms T.twin (T.twinOf e))
  | .assignment node left => Alike (Matches T.base) (Render.declaringAtoms T.env node (T.child left))
      (Render.declaringAtoms T.twin (T.label node) (T.twinOf left))
  | .mention node name => Matches T.base (Atoms.mention node name) (Atoms.mention (T.label node) name)
  | .note _ => True

/-- All pieces agree with their twins. -/
def AgreesOn (T : Twins) (steps : List Step) : Prop := ∀ p ∈ steps.flatMap Step.pieces, T.Agrees p

theorem AgreesOn.append_iff {first steps : List Step} :
    T.AgreesOn (first ++ steps) ↔ T.AgreesOn first ∧ T.AgreesOn steps := by
  unfold AgreesOn
  rw [List.flatMap_append, List.forall_mem_append]

theorem AgreesOn.cons_iff {step : Step} {steps : List Step} :
    T.AgreesOn (step :: steps) ↔ T.AgreesOn [step] ∧ T.AgreesOn steps := by
  rw [← List.singleton_append, AgreesOn.append_iff]

theorem AgreesOn.one {p : Piece} (h : T.AgreesOn [.one p]) : T.Agrees p :=
  h p (List.mem_singleton_self p)

theorem AgreesOn.flatMap {α : Type} {steps : α → List Step} {as : List α}
    (h : T.AgreesOn (as.flatMap steps)) {a : α} (ha : a ∈ as) : T.AgreesOn (steps a) := by
  intro p hp
  refine h p ?_
  rw [List.flatMap_assoc]
  exact List.mem_flatMap.mpr ⟨a, ha, hp⟩

theorem AgreesOn.enclosed {node : Nat} {steps : List Step}
    (h : T.AgreesOn (Arrangement.enclosed node steps)) : T.AgreesOn steps :=
  (AgreesOn.append_iff.mp (AgreesOn.cons_iff.mp h).2).1

theorem AgreesOn.values {es : List Expr} (h : T.AgreesOn (Arrangement.values es)) {e : Expr}
    (he : e ∈ es) : T.AgreesOn [Arrangement.value e] := by
  rw [Arrangement.values, List.map_eq_flatMap] at h
  exact h.flatMap he

/-! ### Children -/

open Render

@[grind ←] theorem matches_typeName (t : TypeRef) :
    Matches T.base (T.env.typeName t) (T.twin.typeName t) :=
  .typeName _ t

@[grind ←] theorem matches_separated (separator : String) {ds ds' : List Doc}
    (h : List.Forall₂ T.Part ds ds') :
    Matches T.base (Render.separated separator ds) (Render.separated separator ds') := by
  refine .separated _ ?_
  rw [List.forall₂_map_left_iff, List.forall₂_map_right_iff]
  exact h.imp fun d d' hd => hd.atoms

attribute [grind →] Part.atoms

section Children

variable {e : Expr} {es : List Expr}

theorem alike_value (h : T.AgreesOn [Arrangement.value e]) :
    Alike T.Part (value (T.child e)) (value (T.twinOf e)) :=
  h.one

theorem alike_operand (h : T.AgreesOn [Arrangement.value e]) (level : Level) :
    Alike T.Part (operand (T.child e) level) (operand (T.twinOf e) level) := by
  refine (alike_value h).last fun d d' hd => ?_
  rw [Node.level_relabel]
  split
  · exact hd.parenthesized
  · exact hd

theorem alike_values (h : T.AgreesOn (Arrangement.values es)) :
    Alike (List.Forall₂ T.Part) (values (es.map T.child)) (values (es.map T.twinOf)) :=
  .mapM fun _ he => alike_value (h.values he)

end Children

end Twins

end TreeScribe
