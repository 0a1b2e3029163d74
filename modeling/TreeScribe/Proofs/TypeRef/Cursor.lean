import TreeScribe.Proofs.TypeRef.Shares

/-! The cursor that shares out generic arguments, in checked machine words.

Each type of a chain moves the cursor on by as many arguments as its name announces, and that number is
whatever stands behind the backquote. So the sum of the two need not be a word, and the process stops at a sum
that is none. Until then no share reaches beyond the arguments, and none ends before it starts
(`CursorStep.inRange_steps`). The walk comes to the end of the chain exactly if no type announces so many
parameters that they and the arguments taken before it are more than a word can count
(`CursorStep.fits_steps_iff`). Then the arguments are written in order, and none twice
(`CursorStep.flatten_slices`); otherwise no name is written at all (`IsNamed.overflows_iff`). -/
namespace TreeScribe.TypeRef

/-! ### One step -/

/-- What the name of one type of a chain does to the cursor. -/
structure CursorStep where
  /-- Where the cursor is before. -/
  start : Nat
  arity : Nat
  /-- Where the cursor is afterwards, unless the process stops. -/
  stop? : Option Nat
deriving DecidableEq, Repr

namespace CursorStep

/-- The sum of the cursor and the arity is a word. -/
def Fits (s : CursorStep) : Prop := s.start + s.arity < 2 ^ 64

/-- The arguments from the one place to the other. -/
def slice {α : Type} (s : CursorStep) (args : List α) : List α :=
  match s.stop? with
  | none => []
  | some stop => (args.drop s.start).take (stop - s.start)

/-- The step cuts a slice out of so many arguments, or the process stops because the sum is no word. -/
structure InRange (count : Nat) (s : CursorStep) : Prop where
  start : s.start ≤ count
  stop : ∀ stop ∈ s.stop?, s.start ≤ stop ∧ stop ≤ count
  stops_iff : s.stop? = none ↔ ¬s.Fits

/-- The steps along a chain from a cursor on, with so many arguments, until the process stops. -/
def steps (count : Nat) : (cursor : Nat) → List TypeRef → List CursorStep
  | _, [] => []
  | cursor, t :: ts =>
    ⟨cursor, t.ownArity, argumentsEnd? cursor t.ownArity count⟩ ::
      match argumentsEnd? cursor t.ownArity count with
      | none => []
      | some stop => steps count stop ts

end CursorStep

section Word

variable {cursor arity count : Nat}

theorem argumentsEnd?_of_fits (h : cursor + arity < 2 ^ 64) :
    argumentsEnd? cursor arity count = some (argumentsEnd cursor arity count) := if_pos h

theorem argumentsEnd?_of_not_fits (h : ¬cursor + arity < 2 ^ 64) : argumentsEnd? cursor arity count = none :=
  if_neg h

theorem argumentsEnd_le_count : argumentsEnd cursor arity count ≤ count := Nat.min_le_right _ _

theorem le_argumentsEnd (hcursor : cursor ≤ count) : cursor ≤ argumentsEnd cursor arity count :=
  Nat.le_min.mpr ⟨Nat.le_add_right _ _, hcursor⟩

end Word

/-! ### Steps along a chain -/

namespace CursorStep

variable {count cursor : Nat} {ts : List TypeRef}

theorem inRange_step (hcursor : cursor ≤ count) (arity : Nat) :
    InRange count ⟨cursor, arity, argumentsEnd? cursor arity count⟩ := by
  by_cases hfits : cursor + arity < 2 ^ 64
  · rw [argumentsEnd?_of_fits hfits]
    refine ⟨hcursor, fun stop hstop => ?_, iff_of_false (Option.some_ne_none _) (not_not_intro hfits)⟩
    obtain rfl := Option.some.inj hstop
    exact ⟨le_argumentsEnd hcursor, argumentsEnd_le_count⟩
  · rw [argumentsEnd?_of_not_fits hfits]
    exact ⟨hcursor, nofun, iff_of_true rfl hfits⟩

/-- No step leaves the arguments, and the process stops only at a sum that is no word. -/
theorem inRange_steps (hcursor : cursor ≤ count) : ∀ s ∈ steps count cursor ts, s.InRange count := by
  induction ts generalizing cursor with
  | nil => exact List.forall_mem_nil _
  | cons t ts ih =>
    have hstep := inRange_step hcursor t.ownArity
    rw [steps]
    refine List.forall_mem_cons.mpr ⟨hstep, ?_⟩
    cases hstop : argumentsEnd? cursor t.ownArity count with
    | none => exact List.forall_mem_nil _
    | some stop => exact ih (hstep.stop stop hstop).2

/-- The steps of a chain whose first sum is a word. -/
theorem steps_of_fits {t : TypeRef} (h : cursor + t.ownArity < 2 ^ 64) :
    steps count cursor (t :: ts) =
      ⟨cursor, t.ownArity, some (argumentsEnd cursor t.ownArity count)⟩ ::
        steps count (argumentsEnd cursor t.ownArity count) ts := by
  rw [steps, argumentsEnd?_of_fits h]

/-- A walk whose first sum is no word does not go on. -/
theorem fits_steps_cons_iff {t : TypeRef} :
    (∀ s ∈ steps count cursor (t :: ts), s.Fits) ↔
      cursor + t.ownArity < 2 ^ 64 ∧ ∀ s ∈ steps count (argumentsEnd cursor t.ownArity count) ts, s.Fits := by
  by_cases hfits : cursor + t.ownArity < 2 ^ 64
  · rw [steps_of_fits hfits, List.forall_mem_cons]
    rfl
  · rw [steps]
    exact iff_of_false (fun h => hfits (h _ List.mem_cons_self)) (fun h => hfits h.1)

/-- **All sums are words exactly if** no type announces so many parameters that they and the arguments taken
before it are more than a word can count. -/
theorem fits_steps_iff (hcursor : cursor ≤ count) :
    (∀ s ∈ steps count cursor ts, s.Fits) ↔
      ∀ before t after, ts = before ++ t :: after →
        min (cursor + (before.map ownArity).sum) count + t.ownArity < 2 ^ 64 := by
  induction ts generalizing cursor with
  | nil => simp [steps]
  | cons t ts ih =>
    have hhead : min cursor count = cursor := Nat.min_eq_left hcursor
    rw [fits_steps_cons_iff, ih argumentsEnd_le_count]
    constructor
    · rintro ⟨hfits, hrest⟩ before u after hts
      cases before with
      | nil =>
        obtain ⟨rfl, rfl⟩ := List.cons.inj hts
        simpa [hhead] using hfits
      | cons t' before =>
        obtain ⟨rfl, rfl⟩ := List.cons.inj hts
        have hlater := hrest before u after rfl
        rw [argumentsEnd] at hlater
        rw [List.map_cons, List.sum_cons]
        omega
    · intro h
      refine ⟨by simpa [hhead] using h [] t ts rfl, fun before u after hts => ?_⟩
      have hlater := h (t :: before) u after (by rw [hts, List.cons_append])
      rw [List.map_cons, List.sum_cons] at hlater
      rw [argumentsEnd]
      omega

/-- Where all sums are words, the walk comes to the end of the chain, and its shares are the slices. -/
theorem exists_shareOut? {α : Type} {args : List α} (h : ∀ s ∈ steps args.length cursor ts, s.Fits) :
    ∃ shares, shareOut? args.length cursor ts = some shares ∧
      shares.map (fun (start, stop) => (args.drop start).take (stop - start)) =
        (steps args.length cursor ts).map (·.slice args) := by
  induction ts generalizing cursor with
  | nil => exact ⟨[], rfl, rfl⟩
  | cons t ts ih =>
    obtain ⟨hfits, hrest⟩ := fits_steps_cons_iff.mp h
    obtain ⟨shares, hshares, hslices⟩ := ih hrest
    refine ⟨(cursor, argumentsEnd cursor t.ownArity args.length) :: shares, ?_, ?_⟩
    · rw [shareOut?, argumentsEnd?_of_fits hfits]
      dsimp only [bind, Option.bind]
      rw [hshares]
      rfl
    · rw [steps_of_fits hfits, List.map_cons, List.map_cons, hslices]
      rfl

/-- Otherwise it stops on its way. -/
theorem shareOut?_of_not_fits (h : ¬∀ s ∈ steps count cursor ts, s.Fits) : shareOut? count cursor ts = none := by
  induction ts generalizing cursor with
  | nil => exact absurd (List.forall_mem_nil _) h
  | cons t ts ih =>
    rw [fits_steps_cons_iff, not_and] at h
    rw [shareOut?]
    by_cases hfits : cursor + t.ownArity < 2 ^ 64
    · rw [argumentsEnd?_of_fits hfits]
      dsimp only [bind, Option.bind]
      rw [ih (h hfits)]
    · rw [argumentsEnd?_of_not_fits hfits]
      rfl

/-- Where all sums are words, the arguments are taken in order, as many as are announced. -/
theorem flatten_slices {α : Type} {args : List α} (hcursor : cursor ≤ args.length)
    (h : ∀ s ∈ steps args.length cursor ts, s.Fits) :
    ((steps args.length cursor ts).map (·.slice args)).flatten = (args.drop cursor).take (ts.map ownArity).sum := by
  induction ts generalizing cursor with
  | nil => simp [steps]
  | cons t ts ih =>
    obtain ⟨hfits, hrest⟩ := fits_steps_cons_iff.mp h
    rw [steps_of_fits hfits, List.map_cons, List.flatten_cons, ih argumentsEnd_le_count hrest, slice, argumentsEnd,
      List.map_cons, List.sum_cons, List.take_add, List.drop_drop]
    dsimp only
    rcases Nat.le_total (cursor + t.ownArity) args.length with hle | hge
    · rw [Nat.min_eq_left hle, Nat.add_sub_cancel_left]
    · -- the last arguments are taken here, and nothing is left
      have hall : (args.drop cursor).take t.ownArity = args.drop cursor :=
        List.take_of_length_le (by rw [List.length_drop]; omega)
      rw [Nat.min_eq_right hge, hall, ← List.length_drop, List.take_length, List.drop_length,
        List.drop_eq_nil_of_le hge]

end CursorStep

/-! ### Whole names -/

section Names

variable (o : TypeNameOptions) {names : List (List Segment)} {cursor : Nat}

open CursorStep (steps)

/-- A list is written where the slice is not empty. -/
theorem slice_isEmpty (hcursor : cursor ≤ names.length) (t : TypeRef) :
    let stop := argumentsEnd cursor t.ownArity names.length
    ((names.drop cursor).take (stop - cursor)).isEmpty = !(cursor < stop && 0 < t.ownArity) := by
  intro stop
  have hstop : stop ≤ names.length := argumentsEnd_le_count
  have hstays (hzero : t.ownArity = 0) : stop = cursor := by
    show argumentsEnd cursor t.ownArity names.length = cursor
    rw [hzero, argumentsEnd, Nat.add_zero, Nat.min_eq_left hcursor]
  have hmoves : (cursor < stop && 0 < t.ownArity) = true ↔ cursor < stop := by
    rw [Bool.and_eq_true, decide_eq_true_iff, decide_eq_true_iff]
    exact ⟨And.left, fun hlt => ⟨hlt, Nat.pos_of_ne_zero fun hzero => by rw [hstays hzero] at hlt; omega⟩⟩
  rw [Bool.eq_iff_iff, Bool.not_eq_true', ← Bool.not_eq_true, hmoves, List.isEmpty_iff_length_eq_zero,
    List.length_take, List.length_drop]
  omega

/-- The name of a type is followed by its slice of the arguments. -/
theorem chainSegments_cons_slice (hcursor : cursor ≤ names.length) (first : Bool) (t : TypeRef)
    (ts : List TypeRef) :
    let stop := argumentsEnd cursor t.ownArity names.length
    chainSegments o names first cursor (t :: ts) =
      (if first then namespaceSegments o t else [plain "."]) ++
        ownSegments t ((names.drop cursor).take (stop - cursor)) ++ chainSegments o names false stop ts := by
  intro stop
  rw [chainSegments, ownSegments, slice_isEmpty hcursor t]
  cases cursor < argumentsEnd cursor t.ownArity names.length && 0 < t.ownArity with
  | true => simp [stop]
  | false => simp [stop]

theorem chainSegments_false_slices {ts : List TypeRef} (hcursor : cursor ≤ names.length)
    (h : ∀ s ∈ steps names.length cursor ts, s.Fits) :
    chainSegments o names false cursor ts =
      (ts.zip ((steps names.length cursor ts).map (·.slice names))).flatMap
        fun r => plain "." :: ownSegments r.1 r.2 := by
  induction ts generalizing cursor with
  | nil => rfl
  | cons t ts ih =>
    obtain ⟨hfits, hrest⟩ := CursorStep.fits_steps_cons_iff.mp h
    rw [chainSegments_cons_slice o hcursor, ih argumentsEnd_le_count hrest, CursorStep.steps_of_fits hfits]
    rfl

/-- The names of a chain, each with its slice of the arguments. -/
theorem chainSegments_slices {ts : List TypeRef} (h : ∀ s ∈ steps names.length 0 ts, s.Fits) :
    chainSegments o names true 0 ts = sharedSegments o (ts.zip ((steps names.length 0 ts).map (·.slice names))) := by
  cases ts with
  | nil => rfl
  | cons t ts =>
    obtain ⟨hfits, hrest⟩ := CursorStep.fits_steps_cons_iff.mp h
    rw [chainSegments_cons_slice o (Nat.zero_le _), chainSegments_false_slices o argumentsEnd_le_count hrest,
      CursorStep.steps_of_fits hfits]
    rfl

end Names

section Stops

variable {o : TypeNameOptions} {t : TypeRef}

theorem segments?_eq_none_iff : t.segments? o = none ↔ t.overflows o = true := by
  rw [segments?]
  cases t.overflows o <;> simp

theorem overflowsAll_eq (ts : List TypeRef) : overflowsAll o ts = ts.map (overflows o) := by
  induction ts with
  | nil => rfl
  | cons t ts ih => rw [overflowsAll, ih, List.map_cons]

theorem IsNamed.overflows_eq (h : t.IsNamed) (hgeneric : t.isGeneric = true) :
    t.overflows o =
      match shareOut? t.args.length 0 t.chain with
      | none => true
      | some shares =>
        shares.any fun (start, stop) => (((t.args.map (overflows o)).drop start).take (stop - start)).any id := by
  obtain ⟨k, space, name, declaring, args, element, rank, anonymous, closure⟩ := t
  have helement : element = none := h.element
  have hanonymous : anonymous = false := h.notAnonymous
  subst helement hanonymous
  rw [overflows.eq_def]
  dsimp only
  rw [overflowsAll_eq, h.notParameter, h.notNullable, h.notKeyword, hgeneric]
  rfl

end Stops

/-- The steps along the chain of a type, with its arguments. -/
def cursorSteps (t : TypeRef) : List CursorStep := CursorStep.steps t.args.length 0 t.chain

/-- The process stops at a sum that is no word, or at the name of an argument that is written. -/
theorem IsNamed.overflows_iff {t : TypeRef} (h : t.IsNamed) (hgeneric : t.isGeneric = true)
    (o : TypeNameOptions) :
    t.overflows o = true ↔ (¬∀ s ∈ t.cursorSteps, s.Fits) ∨
      ∃ a ∈ t.args.take (t.chain.map ownArity).sum, a.overflows o = true := by
  rw [h.overflows_eq hgeneric, ← List.length_map (overflows o)]
  by_cases hfits : ∀ s ∈ t.cursorSteps, s.Fits
  · have hsteps : ∀ s ∈ CursorStep.steps (t.args.map (overflows o)).length 0 t.chain, s.Fits := by
      rwa [List.length_map]
    obtain ⟨shares, hshares, hslices⟩ := CursorStep.exists_shareOut? hsteps
    have hflat := CursorStep.flatten_slices (Nat.zero_le _) hsteps
    rw [← hslices, List.drop_zero, ← List.map_take] at hflat
    have hany : (shares.any fun (start, stop) => (((t.args.map (overflows o)).drop start).take (stop - start)).any id) =
        (t.args.take (t.chain.map ownArity).sum).any (overflows o) := by
      rw [← Function.id_comp (overflows o), ← List.any_map, ← hflat, List.any_flatten, List.any_map]
      rfl
    rw [hshares, or_iff_right (not_not_intro hfits)]
    dsimp only
    rw [hany, List.any_eq_true]
  · rw [CursorStep.shareOut?_of_not_fits (by rwa [List.length_map])]
    exact iff_of_true rfl (.inl hfits)

/-- Where the chain declares as many parameters as there are arguments, all sums are words: the process stops
only at the name of an argument. -/
theorem IsDivided.overflows_iff {t : TypeRef} (h : t.IsDivided) (o : TypeNameOptions) :
    t.overflows o = true ↔ ∃ a ∈ t.args, a.overflows o = true := by
  have hfits : ∀ s ∈ t.cursorSteps, s.Fits :=
    (CursorStep.fits_steps_iff (Nat.zero_le _)).mpr fun before u after hchain => by
      have hsum := h.arities
      have hcount := h.count
      rw [hchain, List.map_append, List.map_cons, List.sum_append, List.sum_cons] at hsum
      omega
  rw [h.toIsNamed.overflows_iff h.generic, h.arities, List.take_length, or_iff_right (not_not_intro hfits)]

/-- **Until the process stops, a name consists of slices that lie within the arguments**, and it stops exactly
where the sum of the cursor and an arity is no word. That never happens exactly if no type of the chain announces
so many parameters that they and the arguments taken before it are more than a word can count; then the
arguments are written in order, and none twice. -/
theorem cursor_fits_iff {t : TypeRef} (h : t.IsNamed) (hgeneric : t.isGeneric = true) (o : TypeNameOptions) :
    (∀ s ∈ t.cursorSteps, s.InRange t.args.length) ∧
      ((∀ s ∈ t.cursorSteps, s.Fits) ↔ ∀ before u after, t.chain = before ++ u :: after →
        min (before.map ownArity).sum t.args.length + u.ownArity < 2 ^ 64) ∧
      (t.segments? o = none ↔ (¬∀ s ∈ t.cursorSteps, s.Fits) ∨
        ∃ a ∈ t.args.take (t.chain.map ownArity).sum, a.segments? o = none) ∧
      ((∀ s ∈ t.cursorSteps, s.Fits) →
        t.segments o =
            sharedSegments o (t.chain.zip (t.cursorSteps.map (·.slice (t.args.map (segments o))))) ∧
          (t.cursorSteps.map (·.slice t.args)).flatten = t.args.take (t.chain.map ownArity).sum) := by
  refine ⟨CursorStep.inRange_steps (Nat.zero_le _), ?_, ?_, fun hfits => ⟨?_, ?_⟩⟩
  · have hsteps : (∀ s ∈ t.cursorSteps, s.Fits) ↔ _ := CursorStep.fits_steps_iff (Nat.zero_le t.args.length)
    simp only [Nat.zero_add] at hsteps
    exact hsteps
  · simp only [segments?_eq_none_iff]
    exact h.overflows_iff hgeneric o
  · have hsteps : ∀ s ∈ CursorStep.steps (t.args.map (segments o)).length 0 t.chain, s.Fits := by
      rwa [List.length_map]
    rw [h.segments_eq hgeneric, chainSegments_slices o hsteps, List.length_map]
    rfl
  · exact CursorStep.flatten_slices (Nat.zero_le _) hfits

/-- `Inner` in `Outer`, whose name announces as many parameters as a word can count. -/
def widest : TypeRef :=
  (named .classType "" "Inner\x6018446744073709551615").nestedIn (named .classType "Demo" "Outer\x601")

/-- `Deep` in it, with one argument, which `Outer` takes. -/
def overflowing : TypeRef := ((named .classType "" "Deep\x601").nestedIn widest).withArgs [int]

/-- `Outer` takes the one argument, and the process stops at `Inner`: the cursor and its arity are as many as
there are words. -/
theorem cursor_fits_overflowing :
    overflowing.IsNamed ∧ overflowing.isGeneric = true ∧ ¬(∀ s ∈ overflowing.cursorSteps, s.Fits) ∧
      overflowing.cursorSteps = [⟨0, 1, some 1⟩, ⟨1, 2 ^ 64 - 1, none⟩] ∧
      (∀ s ∈ overflowing.cursorSteps, s.InRange 1) ∧ overflowing.segments? {} = none := by
  have hnamed : overflowing.IsNamed := by constructor <;> decide +kernel
  obtain ⟨hrange, hfits, hnone, -⟩ := cursor_fits_iff hnamed (by decide +kernel) {}
  have hstops : ¬∀ s ∈ overflowing.cursorSteps, s.Fits := fun hall =>
    have hinner := hfits.mp hall (overflowing.chain.take 1) widest [overflowing] (by decide +kernel)
    absurd hinner (by decide +kernel)
  exact ⟨hnamed, by decide +kernel, hstops, by decide +kernel, hrange, hnone.mpr (.inl hstops)⟩

end TreeScribe.TypeRef
