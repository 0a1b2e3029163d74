import Mathlib.Data.Set.Insert
import TreeScribe.Layout.Doc

/-! Well-laid atoms: every bracket that opens is closed and every indentation is taken back, in
the order of nesting.

What stands outside all brackets of well-laid atoms can be read piece by piece
(`Atoms.top_append`), and brackets hide what is in them (`Atoms.top_bracketed`). -/
namespace TreeScribe

/-- The atom opens and closes no bracket, and says nothing about what comes after it. -/
def Atom.isFlat : Atom → Bool
  | .token _ _ | .operator _ _ _ | .mention _ _ | .declaration _ | .newline => true
  | .note (.written _) | .note (.opens _) | .note (.closes _) => true
  | .note (.typeName _) | .note (.label _) => false
  | .opening _ | .closing _ | .indent | .unindent => false

/-- Well-laid atoms that name only certain types. -/
inductive Laid (P : TypeRef → Prop) : Atoms → Prop where
  | nil : Laid P []
  | flat {a : Atom} : a.isFlat = true → Laid P [a]
  | typeName (options : TypeNameOptions) {t : TypeRef} : P t → Laid P (Atoms.typeName options t)
  | labelLine (target : Target) : Laid P (Atoms.labelLine target)
  | append {as bs : Atoms} : Laid P as → Laid P bs → Laid P (as ++ bs)
  | indented {as : Atoms} : Laid P as → Laid P (Atoms.indented as)
  | bracketed {as : Atoms} (opening closing : String) :
      Laid P as → Laid P (Atoms.bracketed opening closing as)

/-- Well-laid atoms that may name any type. -/
abbrev WellLaid : Atoms → Prop := Laid fun _ => True

namespace Laid

variable {P : TypeRef → Prop}

attribute [grind ←] Laid.nil Laid.typeName Laid.labelLine Laid.append Laid.indented Laid.bracketed

@[grind ←] theorem token (cls : TokenClass) (s : String) : Laid P (Atoms.token cls s) := by
  unfold Atoms.token
  split
  · exact .nil
  · exact .flat rfl

@[grind ←] theorem text (s : String) : Laid P (Atoms.text s) := token _ s

@[grind ←] theorem space : Laid P Atoms.space := text _

@[grind ←] theorem keyword (s : String) : Laid P (Atoms.keyword s) := token _ s

@[grind ←] theorem control (s : String) : Laid P (Atoms.control s) := token _ s

@[grind ←] theorem varName (s : String) : Laid P (Atoms.varName s) := token _ s

@[grind ←] theorem mention (node : Nat) (s : String) : Laid P (Atoms.mention node s) := by
  unfold Atoms.mention
  split
  · exact .nil
  · exact .flat rfl

@[grind ←] theorem declaring (slot : Slot) {as : Atoms} (h : Laid P as) :
    Laid P (Atoms.declaring slot as) := by
  have hmark : Laid P [.declaration slot] := .flat rfl
  exact hmark.append h

@[grind ←] theorem methodName (s : String) : Laid P (Atoms.methodName s) := token _ s

@[grind ←] theorem operator (level : Level) (sign : String) : Laid P (Atoms.operator level sign) :=
  .flat rfl

@[grind ←] theorem operatorWord (level : Level) (word : String) :
    Laid P (Atoms.operatorWord level word) :=
  .flat rfl

@[grind ←] theorem operatorAtom (level : Level) (cls : TokenClass) (sign : String) :
    Laid P [.operator level cls sign] :=
  .flat rfl

@[grind ←] theorem parens {as : Atoms} (h : Laid P as) : Laid P (Atoms.parens as) := .bracketed _ _ h

@[grind ←] theorem newline : Laid P Atoms.newline := .flat rfl

@[grind ←] theorem enclosed (node : Nat) {as : Atoms} (h : Laid P as) :
    Laid P (Atoms.enclosed node as) := by
  have hopens : Laid P (Atoms.note (.opens node)) := .flat rfl
  have hcloses : Laid P (Atoms.note (.closes node)) := .flat rfl
  exact (hopens.append h).append hcloses

@[grind ←] theorem joinedBy {separator : Atoms} (hs : Laid P separator) {parts : List Atoms}
    (h : ∀ as ∈ parts, Laid P as) : Laid P (Atoms.joinedBy separator parts) := by
  induction parts with
  | nil => exact .nil
  | cons as rest ih =>
    have has := h as (List.mem_cons_self ..)
    have hrest := ih fun bs hb => h bs (List.mem_cons_of_mem _ hb)
    cases rest with
    | nil => exact has
    | cons bs rest => exact .append (.append has hs) hrest

@[grind ←] theorem separated (separator : String) {parts : List Atoms} (h : ∀ as ∈ parts, Laid P as) :
    Laid P (Atoms.separated separator parts) :=
  joinedBy (text separator) h

@[grind ←] theorem «when» (condition : Bool) {as : Atoms} (h : Laid P as) :
    Laid P (Atoms.when condition as) := by
  unfold Atoms.when
  split
  · exact h
  · exact .nil

theorem ite {c : Prop} [Decidable c] {as bs : Atoms} (ha : Laid P as) (hb : Laid P bs) :
    Laid P (if c then as else bs) := by
  split
  · exact ha
  · exact hb

@[grind ←] theorem flatten {parts : List Atoms} (h : ∀ as ∈ parts, Laid P as) : Laid P parts.flatten := by
  induction parts with
  | nil => exact .nil
  | cons as rest ih =>
    rw [List.flatten_cons]
    exact .append (h as (List.mem_cons_self ..)) (ih fun bs hb => h bs (List.mem_cons_of_mem _ hb))

/-- Only types with the property are named. -/
theorem of_typeName {as : Atoms} (h : Laid P as) {t : TypeRef} (hmem : .note (.typeName t) ∈ as) :
    P t := by
  induction h with
  | nil => cases hmem
  | flat hflat =>
    obtain rfl := List.mem_singleton.mp hmem
    cases hflat
  | @typeName options t' hname =>
    rw [Atoms.typeName, List.mem_append, List.mem_map] at hmem
    rcases hmem with hmem | ⟨_, -, hmem⟩
    · cases List.mem_singleton.mp hmem
      exact hname
    · cases hmem
  | labelLine target =>
    have htext (s : String) : .note (.typeName t) ∉ Atoms.text s := by
      unfold Atoms.text Atoms.token
      split <;> simp
    simp only [Atoms.labelLine, List.mem_append, htext, or_false] at hmem
    cases List.mem_singleton.mp hmem
  | append _ _ ih ih' =>
    rcases List.mem_append.mp hmem with hmem | hmem
    · exact ih hmem
    · exact ih' hmem
  | indented _ ih => exact ih (by simpa [Atoms.indented] using hmem)
  | bracketed opening closing _ ih => exact ih (by simpa [Atoms.bracketed] using hmem)

end Laid

/-! ### Operators outside all brackets -/

namespace Atoms

/-- The levels of the operators that stand outside all brackets, after `depth` brackets that are
still open. -/
def topLevelsFrom : (depth : Nat) → Atoms → List Level
  | _, [] => []
  | 0, .operator level _ _ :: rest => level :: topLevelsFrom 0 rest
  | depth, .opening _ :: rest => topLevelsFrom (depth + 1) rest
  | depth, .closing _ :: rest => topLevelsFrom (depth - 1) rest
  | depth, _ :: rest => topLevelsFrom depth rest

/-- The levels of the operators that stand outside all brackets. -/
def topLevels (as : Atoms) : List Level := topLevelsFrom 0 as

@[simp] theorem topLevelsFrom_nil (depth : Nat) : topLevelsFrom depth [] = [] := by
  cases depth <;> rfl

@[simp] theorem topLevelsFrom_opening (depth : Nat) (s : String) (rest : Atoms) :
    topLevelsFrom depth (.opening s :: rest) = topLevelsFrom (depth + 1) rest := by
  cases depth <;> rfl

@[simp] theorem topLevelsFrom_closing (depth : Nat) (s : String) (rest : Atoms) :
    topLevelsFrom depth (.closing s :: rest) = topLevelsFrom (depth - 1) rest := by
  cases depth <;> rfl

@[simp] theorem topLevelsFrom_indent (depth : Nat) (rest : Atoms) :
    topLevelsFrom depth (.indent :: rest) = topLevelsFrom depth rest := by
  cases depth <;> rfl

@[simp] theorem topLevelsFrom_unindent (depth : Nat) (rest : Atoms) :
    topLevelsFrom depth (.unindent :: rest) = topLevelsFrom depth rest := by
  cases depth <;> rfl

@[simp] theorem topLevelsFrom_note (depth : Nat) (n : Note) (rest : Atoms) :
    topLevelsFrom depth (.note n :: rest) = topLevelsFrom depth rest := by
  cases depth <;> rfl

@[simp] theorem topLevelsFrom_token (depth : Nat) (cls : TokenClass) (s : String) (rest : Atoms) :
    topLevelsFrom depth (.token cls s :: rest) = topLevelsFrom depth rest := by
  cases depth <;> rfl

/-- No operator stands in a text, whatever comes after it. -/
theorem topLevelsFrom_text (depth : Nat) (s : String) (rest : Atoms) :
    topLevelsFrom depth (text s ++ rest) = topLevelsFrom depth rest := by
  unfold text token
  split <;> simp

theorem topLevelsFrom_typeName (options : TypeNameOptions) (t : TypeRef) (depth : Nat)
    (rest : Atoms) : topLevelsFrom depth (typeName options t ++ rest) = topLevelsFrom depth rest := by
  have hsegments (segments : List TypeRef.Segment) :
      topLevelsFrom depth ((segments.map fun s => Atom.token s.2 s.1) ++ rest) =
        topLevelsFrom depth rest := by
    induction segments with
    | nil => rfl
    | cons s segments ih => simpa using ih
  simpa [typeName, note] using hsegments (t.segments options)

theorem topLevelsFrom_labelLine (target : Target) (depth : Nat) (rest : Atoms) :
    topLevelsFrom depth (labelLine target ++ rest) = topLevelsFrom depth rest := by
  simp [labelLine, note, topLevelsFrom_text]

/-- Atoms that add nothing in front of others have no operator at the top. -/
theorem topLevelsFrom_eq_nil {as : Atoms} {depth : Nat}
    (h : ∀ rest, topLevelsFrom depth (as ++ rest) = topLevelsFrom depth rest) :
    topLevelsFrom depth as = [] := by
  have hnil := h []
  rwa [List.append_nil, topLevelsFrom_nil] at hnil

theorem topLevelsFrom_append {as : Atoms} (h : WellLaid as) (depth : Nat) (bs : Atoms) :
    topLevelsFrom depth (as ++ bs) = topLevelsFrom depth as ++ topLevelsFrom depth bs := by
  induction h generalizing depth bs with
  | nil => simp
  | @flat a ha =>
    cases a with
    | token _ _ | operator _ _ _ | mention _ _ | declaration _ | note _ | newline =>
      cases depth <;> rfl
    | opening _ | closing _ | indent | unindent => cases ha
  | @typeName options t _ =>
    rw [topLevelsFrom_typeName, topLevelsFrom_eq_nil (topLevelsFrom_typeName options t depth),
      List.nil_append]
  | labelLine target =>
    rw [topLevelsFrom_labelLine, topLevelsFrom_eq_nil (topLevelsFrom_labelLine target depth),
      List.nil_append]
  | append _ _ iha ihb => rw [List.append_assoc, iha, iha, ihb, List.append_assoc]
  | indented _ ih => simp [indented, ih]
  | bracketed opening closing _ ih => simp [bracketed, ih]

/-- Within brackets nothing stands at the top. -/
theorem topLevelsFrom_succ {as : Atoms} (h : WellLaid as) (depth : Nat) :
    topLevelsFrom (depth + 1) as = [] := by
  induction h generalizing depth with
  | nil => rfl
  | @flat a ha =>
    cases a with
    | token _ _ | operator _ _ _ | mention _ _ | declaration _ | note _ | newline => rfl
    | opening _ | closing _ | indent | unindent => cases ha
  | @typeName options t _ => exact topLevelsFrom_eq_nil (topLevelsFrom_typeName options t _)
  | labelLine target => exact topLevelsFrom_eq_nil (topLevelsFrom_labelLine target _)
  | append ha _ iha ihb => rw [topLevelsFrom_append ha, iha, ihb, List.append_nil]
  | indented hs ih => simp [indented, topLevelsFrom_append hs, ih]
  | bracketed opening closing hs ih => simp [bracketed, topLevelsFrom_append hs, ih]

/-- The levels at the top, as a set. -/
def top (as : Atoms) : Set Level := { level | level ∈ topLevels as }

@[simp] theorem top_nil : top [] = ∅ := by
  simp [top, topLevels]

@[simp] theorem top_append {as : Atoms} (h : WellLaid as) (bs : Atoms) :
    top (as ++ bs) = top as ∪ top bs := by
  ext level
  simp [top, topLevels, topLevelsFrom_append h]

@[simp] theorem top_bracketed {as : Atoms} (h : WellLaid as) (opening closing : String) :
    top (bracketed opening closing as) = ∅ := by
  simp [top, topLevels, bracketed, topLevelsFrom_append h, topLevelsFrom_succ h]

@[simp] theorem top_parens {as : Atoms} (h : WellLaid as) : top (parens as) = ∅ :=
  top_bracketed h _ _

@[simp] theorem top_indented {as : Atoms} (h : WellLaid as) : top (indented as) = top as := by
  simp [top, topLevels, indented, topLevelsFrom_append h]

@[simp] theorem top_tokenAtom (cls : TokenClass) (s : String) : top [.token cls s] = ∅ := by
  simp [top, topLevels, topLevelsFrom]

@[simp] theorem top_token (cls : TokenClass) (s : String) : top (token cls s) = ∅ := by
  unfold token
  split
  · exact top_nil
  · exact top_tokenAtom cls s

@[simp] theorem top_text (s : String) : top (text s) = ∅ := top_token _ s

@[simp] theorem top_space : top space = ∅ := top_text _

@[simp] theorem top_keyword (s : String) : top (keyword s) = ∅ := top_token _ s

@[simp] theorem top_control (s : String) : top (control s) = ∅ := top_token _ s

@[simp] theorem top_varName (s : String) : top (varName s) = ∅ := top_token _ s

@[simp] theorem top_mention (node : Nat) (s : String) : top (mention node s) = ∅ := by
  unfold mention
  split
  · exact top_nil
  · simp [top, topLevels, topLevelsFrom]

@[simp] theorem top_declaring (slot : Slot) (as : Atoms) : top (declaring slot as) = top as := by
  simp [top, topLevels, declaring, topLevelsFrom]

@[simp] theorem top_methodName (s : String) : top (methodName s) = ∅ := top_token _ s

@[simp] theorem top_newline : top newline = ∅ := by
  simp [top, topLevels, newline, topLevelsFrom]

@[simp] theorem top_operator_cons (level : Level) (cls : TokenClass) (sign : String)
    (rest : Atoms) : top (.operator level cls sign :: rest) = {level} ∪ top rest := by
  ext l
  simp [top, topLevels, topLevelsFrom]

@[simp] theorem top_operator (level : Level) (sign : String) :
    top (operator level sign) = {level} := by
  simp [operator]

@[simp] theorem top_operatorWord (level : Level) (word : String) :
    top (operatorWord level word) = {level} := by
  simp [operatorWord]

theorem top_joinedBy {separator : Atoms} (hs : WellLaid separator) {parts : List Atoms}
    (h : ∀ as ∈ parts, WellLaid as) :
    top (joinedBy separator parts) =
      { level | ∃ as ∈ parts, level ∈ top as } ∪ if 1 < parts.length then top separator else ∅ := by
  induction parts with
  | nil => simp [joinedBy]
  | cons as rest ih =>
    have has := h as (List.mem_cons_self ..)
    have hrest := ih fun bs hb => h bs (List.mem_cons_of_mem _ hb)
    cases rest with
    | nil => simp [joinedBy]
    | cons bs rest =>
      show top (as ++ separator ++ joinedBy separator (bs :: rest)) = _
      rw [top_append (.append has hs), top_append has, hrest]
      ext level
      simp only [List.length_cons, Set.mem_union]
      by_cases hlong : 0 < rest.length <;> grind

theorem top_flatten {parts : List Atoms} (h : ∀ as ∈ parts, WellLaid as ∧ top as = ∅) :
    top parts.flatten = ∅ := by
  induction parts with
  | nil => exact top_nil
  | cons as rest ih =>
    have has := h as (List.mem_cons_self ..)
    rw [List.flatten_cons, top_append has.1, has.2,
      ih fun bs hb => h bs (List.mem_cons_of_mem _ hb), Set.union_empty]

theorem top_separated (separator : String) {parts : List Atoms}
    (h : ∀ as ∈ parts, WellLaid as ∧ top as = ∅) : top (separated separator parts) = ∅ := by
  rw [separated, top_joinedBy (.text _) fun as has => (h as has).1]
  ext level
  simp only [top_text, ite_self, Set.union_empty]
  constructor
  · rintro ⟨as, has, hlevel⟩
    rwa [(h as has).2] at hlevel
  · exact False.elim

@[simp] theorem top_typeName (options : TypeNameOptions) (t : TypeRef) :
    top (typeName options t) = ∅ := by
  simp [top, topLevels, topLevelsFrom_eq_nil (topLevelsFrom_typeName options t 0)]

@[simp] theorem top_labelLine (target : Target) : top (labelLine target) = ∅ := by
  simp [top, topLevels, topLevelsFrom_eq_nil (topLevelsFrom_labelLine target 0)]

@[simp] theorem top_note (n : Note) : top (note n) = ∅ := by
  simp [top, topLevels, note]

@[simp] theorem top_enclosed {as : Atoms} (h : WellLaid as) (node : Nat) :
    top (enclosed node as) = top as := by
  have hopens : WellLaid (note (.opens node)) := .flat rfl
  rw [enclosed, top_append (hopens.append h), top_append hopens, top_note, top_note,
    Set.empty_union, Set.union_empty]

end Atoms
end TreeScribe
