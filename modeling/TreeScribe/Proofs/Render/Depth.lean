import TreeScribe.Proofs.Layout.Shift
import TreeScribe.Proofs.Render.Metrics

/-! Indentation is taken back where it was made.

Wherever well-laid atoms are written, at no moment is the depth less than at the start, each step out takes
back a step in that was made since, and in the end the depth is that of the start (`Atoms.keepsDepth_of_laid`).
So a depth that stops at zero is never asked to go below, whatever is made of a tree in whatever position and
under all settings (`Env.keepsDepth`). -/
namespace TreeScribe

open Atoms

/-! ### The depth of a buffer -/

namespace Buffer

variable (b : Buffer)

theorem depth_segment (cls : TokenClass) (s : String) : (b.segment cls s).depth = b.depth := by
  unfold segment
  split <;> rfl

theorem depth_continued (cls : TokenClass) (ls : List (List Char)) : (b.continued cls ls).depth = b.depth := by
  induction ls generalizing b with
  | nil => rfl
  | cons l ls ih => rw [continued, ih, depth_segment, newline]

/-- Line breaks in a text do not change the depth. -/
theorem depth_write (cls : TokenClass) (s : String) : (b.write cls s).depth = b.depth := by
  unfold write
  split
  · rfl
  · rw [depth_continued, depth_segment]

end Buffer

/-- Only a step in or out changes the depth. -/
theorem Atom.depth_write {a : Atom} (hin : a ≠ .indent) (hout : a ≠ .unindent) (b : Buffer) :
    (a.write b).depth = b.depth := by
  cases a with
  | token cls s | operator _ cls s => exact b.depth_write cls s
  | mention _ s | opening s | closing s => exact b.depth_write _ s
  | declaration _ | note _ | newline => rfl
  | indent => exact absurd rfl hin
  | unindent => exact absurd rfl hout

/-! ### Steps in and out -/

namespace Atoms

/-- The steps in that are not taken back yet, with those from before; none if one is taken back that was
never made. -/
def openSteps : (before : Nat) → Atoms → Option Nat
  | steps, [] => some steps
  | steps, .indent :: as => openSteps (steps + 1) as
  | 0, .unindent :: _ => none
  | steps + 1, .unindent :: as => openSteps steps as
  | steps, _ :: as => openSteps steps as

@[simp] theorem openSteps_nil (steps : Nat) : openSteps steps [] = some steps := by
  cases steps <;> rfl

@[simp] theorem openSteps_indent (steps : Nat) (as : Atoms) :
    openSteps steps (.indent :: as) = openSteps (steps + 1) as := by
  cases steps <;> rfl

theorem openSteps_other {a : Atom} (hin : a ≠ .indent) (hout : a ≠ .unindent) (steps : Nat) (as : Atoms) :
    openSteps steps (a :: as) = openSteps steps as := by
  cases a with
  | indent => exact absurd rfl hin
  | unindent => exact absurd rfl hout
  | _ => cases steps <;> rfl

theorem openSteps_append (steps : Nat) (as bs : Atoms) :
    openSteps steps (as ++ bs) = (openSteps steps as).bind (openSteps · bs) := by
  induction as generalizing steps with
  | nil => simp
  | cons a as ih =>
    rw [List.cons_append]
    by_cases hin : a = .indent
    · rw [hin, openSteps_indent, openSteps_indent, ih]
    · by_cases hout : a = .unindent
      · subst hout
        cases steps with
        | zero => rfl
        | succ steps => exact ih steps
      · rw [openSteps_other hin hout, openSteps_other hin hout, ih]

/-- Well-laid atoms take back what they made, and nothing from before. -/
theorem openSteps_of_laid {P : TypeRef → Prop} {as : Atoms} (h : Laid P as) :
    ∀ steps, openSteps steps as = some steps := by
  refine h.of_steps (Q := fun as => ∀ steps, openSteps steps as = some steps) openSteps_nil ?_ ?_ ?_
  · intro a hin hout steps
    rw [openSteps_other hin hout, openSteps_nil]
  · intro as bs ha hb steps
    rw [openSteps_append, ha, Option.bind_some, hb]
  · intro as has steps
    rw [indented, List.append_assoc, List.singleton_append, openSteps_indent, openSteps_append, has]
    exact openSteps_nil steps

/-- A buffer that the atoms are written to is as deep as the steps that are open. -/
theorem depth_write_of_openSteps {as : Atoms} {before after start : Nat} {b : Buffer}
    (h : openSteps before as = some after) (hb : b.depth = start + before) : (as.write b).depth = start + after := by
  induction as generalizing before b with
  | nil =>
    rw [openSteps_nil] at h
    exact Option.some.inj h ▸ hb
  | cons a as ih =>
    by_cases hin : a = .indent
    · rw [hin, openSteps_indent] at h
      exact hin ▸ ih h (congrArg (· + 1) hb)
    · by_cases hout : a = .unindent
      · subst hout
        cases before with
        | zero => cases h
        | succ before => exact ih h (congrArg (· - 1) hb)
      · rw [openSteps_other hin hout] at h
        exact ih h ((Atom.depth_write hin hout b).trans hb)

/-- What becomes of the depth while the atoms are written, to whatever buffer. -/
structure KeepsDepth (as : Atoms) : Prop where
  /-- At no moment it is less than at the start. -/
  above (b : Buffer) {done rest : Atoms} (h : as = done ++ rest) : b.depth ≤ (done.write b).depth
  /-- Before each step out it is more. -/
  taken (b : Buffer) {done rest : Atoms} (h : as = done ++ .unindent :: rest) : b.depth < (done.write b).depth
  /-- In the end it is that of the start. -/
  back (b : Buffer) : (as.write b).depth = b.depth

theorem keepsDepth_of_laid {P : TypeRef → Prop} {as : Atoms} (h : Laid P as) : KeepsDepth as := by
  have hbalanced : openSteps 0 as = some 0 := openSteps_of_laid h 0
  have hmoment (b : Buffer) {done rest : Atoms} (has : as = done ++ rest) :
      ∃ steps, (done.write b).depth = b.depth + steps ∧ openSteps steps rest = some 0 := by
    rw [has, openSteps_append] at hbalanced
    obtain ⟨steps, hdone, hrest⟩ := Option.bind_eq_some_iff.mp hbalanced
    exact ⟨steps, depth_write_of_openSteps hdone rfl, hrest⟩
  constructor
  case above =>
    intro b done rest has
    obtain ⟨steps, hdepth, -⟩ := hmoment b has
    exact hdepth ▸ Nat.le_add_right _ _
  case taken =>
    intro b done rest has
    obtain ⟨steps, hdepth, hrest⟩ := hmoment b has
    cases steps with
    | zero => cases hrest
    | succ steps => exact hdepth ▸ Nat.lt_add_of_pos_right (Nat.succ_pos steps)
  case back => exact fun b => depth_write_of_openSteps hbalanced rfl

end Atoms

/-! ### Whole trees -/

namespace Env

variable {env : Env}

/-- All that is made of a tree is well laid. -/
theorem Makes.isWellLaid {e : Expr} {d : Doc} (h : env.Makes e d) : d.IsWellLaid := by
  have hrenderer := env.wellLaid_renderer e
  induction h with
  | inPosition p declared => exact hrenderer.inPosition p declared
  | body returns declared => exact hrenderer.body returns declared
  | chained returns declared => exact hrenderer.chained returns declared
  | landing returns declared => exact hrenderer.landing returns declared
  | element declared h => exact hrenderer.elements declared _ h
  | parenthesized _ ih => exact ih.parenthesized
  | terminated _ ih => exact ih.terminated
  | returned _ ih => exact ih.returned
  | braced _ ih => exact ih.braced

variable (env)

/-- **Whatever is made of a tree keeps the depth of the buffer it is written to**, in every position and as
an operand at every level. -/
theorem keepsDepth (e : Expr) :
    (∀ d, env.Makes e d → d.atoms.KeepsDepth) ∧
      ∀ level, Gives (env.operand e level) fun d => d.atoms.KeepsDepth :=
  ⟨fun _ h => keepsDepth_of_laid h.isWellLaid, fun level =>
    (Render.laid_operand (env.wellLaid_renderer e) level).mono fun _ hd => keepsDepth_of_laid hd⟩

/-- A switch over `x` with a case and a default. -/
def choosing : Expr :=
  .mk 0 (.switch (.mk 1 (.parameter { name := "x", ty := .int }))
    [{ tests := [.mk 2 (.constant ⟨.int 1, .int⟩)], body := .mk 3 (.comment "one") }]
    (some (.mk 4 (.comment "other"))) .void)

/-- Written at depth two, the statements of the cases are at depth four. -/
theorem keepsDepth_choosing :
    let d := (((Env.ofExpr {} choosing).value choosing).run []).1
    let b : Buffer := { format := .plain, indent := "  ", depth := 2 }
    let depthAfter (k : Nat) : Nat := (Atoms.write (d.atoms.take k) b).depth
    (Env.ofExpr {} choosing).Makes choosing d ∧ ((List.range d.atoms.length).map depthAfter).max? = some 4 ∧
      (∀ k, 2 ≤ depthAfter k) ∧ (d.atoms.write b).depth = 2 := by
  intro d b depthAfter
  have hmade : (Env.ofExpr {} choosing).Makes choosing d := .inPosition .value []
  have hkeeps := (keepsDepth (Env.ofExpr {} choosing) choosing).1 d hmade
  exact ⟨hmade, by decide +kernel, fun k => hkeeps.above b (List.take_append_drop k d.atoms).symm, hkeeps.back b⟩

end Env
end TreeScribe
