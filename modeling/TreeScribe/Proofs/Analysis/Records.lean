import TreeScribe.Proofs.Analysis.Keeps
import TreeScribe.Proofs.TypeRef.Namespaces

/-! What a visit records.

The targets that are jumped to and the namespaces that are needed only grow while a tree is visited.
Whatever the visit does at a node that it meets, it has therefore recorded at the end
(`Visit.recorded_of_meets`). -/
namespace TreeScribe

open Move Moves

/-! ### Analyses that grow -/

/-- All that the first analysis has recorded, the second one has. -/
structure Analysis.Grows (a b : Analysis) : Prop where
  mode : b.mode = a.mode
  jumpTargets : a.jumpTargets ⊆ b.jumpTargets
  namespaces : a.namespaces.spaces ⊆ b.namespaces.spaces

namespace Analysis.Grows

variable {a b c : Analysis}

theorem refl (a : Analysis) : a.Grows a := ⟨rfl, List.Subset.refl _, List.Subset.refl _⟩

theorem trans (h : a.Grows b) (h' : b.Grows c) : a.Grows c :=
  ⟨h'.mode.trans h.mode, List.Subset.trans h.jumpTargets h'.jumpTargets,
    List.Subset.trans h.namespaces h'.namespaces⟩

theorem entered (s : Survey) (owner : Owner) (declared : List Variable) :
    s.analysis.Grows (s.entered owner declared).analysis := by
  cases owner <;> exact ⟨rfl, List.Subset.refl _, List.Subset.refl _⟩

end Analysis.Grows

/-- A namespace that is needed. The global one has no name, and is never imported. -/
def Analysis.Imports (a : Analysis) (t : TypeRef) : Prop :=
  ∀ space ∈ t.requiredNamespaces, space.isEmpty = false → space ∈ a.namespaces.spaces

/-! ### What moves record -/

mutual

/-- The single steps of a move, those in a scope included. -/
def Move.steps : Move → List Move
  | .scope _ _ moves => Move.stepsAll moves
  | m => [m]

def Move.stepsAll : List Move → List Move
  | [] => []
  | m :: ms => m.steps ++ Move.stepsAll ms

end

namespace Move

@[simp] theorem stepsAll_nil : stepsAll [] = [] := rfl

@[simp] theorem stepsAll_cons (m : Move) (ms : List Move) : stepsAll (m :: ms) = m.steps ++ stepsAll ms :=
  rfl

@[simp] theorem stepsAll_append (first moves : List Move) :
    stepsAll (first ++ moves) = stepsAll first ++ stepsAll moves := by
  induction first with
  | nil => rfl
  | cons m first ih => simp [ih]

theorem stepsAll_subset {m : Move} {ms : List Move} (h : m ∈ ms) : m.steps ⊆ stepsAll ms := by
  induction ms with
  | nil => cases h
  | cons m' ms ih =>
    rcases List.mem_cons.mp h with rfl | h
    · exact List.subset_append_left ..
    · exact List.Subset.trans (ih h) (List.subset_append_right ..)

/-- What a step records is there. -/
def IsRecorded (settings : Settings) (a : Analysis) : Move → Prop
  | .jump target => target ∈ a.jumpTargets
  | .note t => settings.choice .qualifyTypes = false → a.Imports t
  | _ => True

theorem IsRecorded.mono {settings : Settings} {a b : Analysis} {m : Move} (h : m.IsRecorded settings a)
    (hgrows : a.Grows b) : m.IsRecorded settings b := by
  cases m with
  | jump target => exact hgrows.jumpTargets h
  | note t => exact fun hqualify space hspace hnamed => hgrows.namespaces (h hqualify space hspace hnamed)
  | _ => trivial

end Move

namespace Visit

variable {settings : Settings} {mode : AnalysisMode}

/-- Nothing that was recorded is lost. -/
def Grows (x : Visit Unit) : Prop := ∀ s : Survey, s.analysis.Grows (x.after s).analysis

theorem grows_noteType (t : TypeRef) : Grows (noteType settings t) := by
  intro s
  unfold noteType
  split
  · exact .refl _
  · exact ⟨rfl, List.Subset.refl _, NamespaceSet.subset_addAll ..⟩

theorem recorded_noteType (t : TypeRef) (s : Survey) :
    (Move.note t).IsRecorded settings ((noteType settings t).after s).analysis := by
  intro hqualify space hspace hnamed
  unfold noteType
  rw [hqualify]
  exact NamespaceSet.mem_addAll _ hspace hnamed

mutual

theorem grows_perform : (m : Move) → (∀ c ∈ m.visits, Grows (tree settings c.1 c.2)) →
    Grows (perform settings m)
  | .child e position, hvisits => hvisits (e, position) (List.mem_singleton_self _)
  | .note t, _ => grows_noteType t
  | .jump target, _ => fun _ => ⟨rfl, List.subset_cons_self .., List.Subset.refl _⟩
  | .reference _ _, _ => fun _ => ⟨rfl, List.Subset.refl _, List.Subset.refl _⟩
  | .assignment _ _ _ _, _ => fun _ => ⟨rfl, List.Subset.refl _, List.Subset.refl _⟩
  | .output _ _, _ => fun _ => ⟨rfl, List.Subset.refl _, List.Subset.refl _⟩
  | .scope owner declared moves, hvisits => fun s => by
    show s.analysis.Grows ((opened owner declared (performAll settings moves)).after s).analysis
    rw [after_opened]
    exact (Analysis.Grows.entered s owner declared).trans (grows_performAll moves hvisits _)

theorem grows_performAll : (ms : List Move) → (∀ c ∈ visitsAll ms, Grows (tree settings c.1 c.2)) →
    Grows (performAll settings ms)
  | [], _ => fun s => .refl s.analysis
  | m :: ms, hvisits => fun s =>
    (grows_perform m (fun c hc => hvisits c (List.mem_append_left _ hc)) s).trans
      (grows_performAll ms (fun c hc => hvisits c (List.mem_append_right _ hc)) _)

end

/-- **A visit loses nothing that was recorded.** -/
theorem grows_tree (e : Expr) (position : Position) : Grows (tree settings e position) := by
  induction e using Node.induction generalizing position with
  | h node f ih =>
    intro s
    rw [after_tree]
    refine grows_performAll _ (fun c hc => ?_) s
    exact ih c.1 (Moves.mem_children_of_visits settings s.analysis.mode hc) c.2

theorem grows_moves (ms : List Move) : Grows (performAll settings ms) :=
  grows_performAll ms fun c _ => grows_tree c.1 c.2

mutual

/-- What a move records is there after it. -/
theorem recorded_perform : (m : Move) → ∀ step ∈ m.steps, ∀ s,
    step.IsRecorded settings ((perform settings m).after s).analysis
  | .child _ _, step, hstep, _ => by
    obtain rfl := List.mem_singleton.mp hstep
    trivial
  | .note t, step, hstep, s => by
    obtain rfl := List.mem_singleton.mp hstep
    exact recorded_noteType t s
  | .jump _, step, hstep, _ => by
    obtain rfl := List.mem_singleton.mp hstep
    exact List.mem_cons_self ..
  | .reference _ _, step, hstep, _ => by
    obtain rfl := List.mem_singleton.mp hstep
    trivial
  | .assignment _ _ _ _, step, hstep, _ => by
    obtain rfl := List.mem_singleton.mp hstep
    trivial
  | .output _ _, step, hstep, _ => by
    obtain rfl := List.mem_singleton.mp hstep
    trivial
  | .scope owner declared moves, step, hstep, s => by
    show step.IsRecorded settings ((opened owner declared (performAll settings moves)).after s).analysis
    rw [after_opened]
    exact recorded_performAll moves step hstep _

theorem recorded_performAll : (ms : List Move) → ∀ step ∈ stepsAll ms, ∀ s,
    step.IsRecorded settings ((performAll settings ms).after s).analysis
  | [], _, hstep, _ => nomatch hstep
  | m :: ms, step, hstep, s => by
    rcases List.mem_append.mp hstep with hstep | hstep
    · exact (recorded_perform m step hstep s).mono (grows_moves ms _)
    · exact recorded_performAll ms step hstep _

end

mutual

/-- A child is visited on the way. -/
theorem passes_perform : (m : Move) → ∀ c ∈ m.visits, ∀ s : Survey, ∃ s' : Survey,
    s.analysis.Grows s'.analysis ∧
      ((tree settings c.1 c.2).after s').analysis.Grows ((perform settings m).after s).analysis
  | .child _ _, _, hc, s => by
    obtain rfl := List.mem_singleton.mp hc
    exact ⟨s, .refl _, .refl _⟩
  | .scope owner declared moves, c, hc, s => by
    obtain ⟨s', hbefore, hafter⟩ := passes_performAll moves c hc (s.entered owner declared)
    refine ⟨s', (Analysis.Grows.entered s owner declared).trans hbefore, ?_⟩
    show Analysis.Grows _ ((opened owner declared (performAll settings moves)).after s).analysis
    rw [after_opened]
    exact hafter
  | .note _, _, hc, _ => nomatch hc
  | .jump _, _, hc, _ => nomatch hc
  | .reference _ _, _, hc, _ => nomatch hc
  | .assignment _ _ _ _, _, hc, _ => nomatch hc
  | .output _ _, _, hc, _ => nomatch hc

theorem passes_performAll : (ms : List Move) → ∀ c ∈ visitsAll ms, ∀ s : Survey, ∃ s' : Survey,
    s.analysis.Grows s'.analysis ∧
      ((tree settings c.1 c.2).after s').analysis.Grows ((performAll settings ms).after s).analysis
  | [], _, hc, _ => nomatch hc
  | m :: ms, c, hc, s => by
    rcases List.mem_append.mp hc with hc | hc
    · obtain ⟨s', hbefore, hafter⟩ := passes_perform m c hc s
      exact ⟨s', hbefore, hafter.trans (grows_moves ms _)⟩
    · obtain ⟨s', hbefore, hafter⟩ := passes_performAll ms c hc ((perform settings m).after s)
      exact ⟨s', (grows_perform m (fun c _ => grows_tree c.1 c.2) s).trans hbefore, hafter⟩

end

variable {e x : Expr} {position q : Position}

/-- What is done at a node that is met is recorded after the visit. -/
theorem recorded_tree (h : Meets settings mode e position x q) {step : Move}
    (hstep : step ∈ stepsAll (Moves.ofExpr settings mode x q)) (s : Survey) (hs : s.analysis.mode = mode) :
    step.IsRecorded settings ((tree settings e position).after s).analysis := by
  induction h generalizing s with
  | here e position =>
    obtain ⟨node, form⟩ := e
    rw [after_tree, hs]
    exact recorded_performAll _ step hstep s
  | @there e c x position q' q hvisit _ ih =>
    obtain ⟨node, form⟩ := e
    rw [after_tree, hs]
    obtain ⟨s', hbefore, hafter⟩ := passes_performAll _ (c, q') hvisit s
    exact (ih hstep s' (hbefore.mode.trans hs)).mono hafter

/-- After a visit the types of declarations are noted. -/
theorem after_run (settings : Settings) (mode : AnalysisMode) (e : Expr) (position : Position) :
    let visited := (tree settings e position).after (.start mode)
    run settings mode e position =
      (after ((declaredTypes settings visited.analysis).forM (noteType settings)) visited).analysis :=
  rfl

theorem grows_notes (ts : List TypeRef) : Grows (ts.forM (noteType settings)) := by
  induction ts with
  | nil => exact fun s => .refl s.analysis
  | cons t ts ih => exact fun s => (grows_noteType t s).trans (ih ((noteType settings t).after s))

theorem recorded_notes {ts : List TypeRef} {t : TypeRef} (ht : t ∈ ts) (s : Survey) :
    (Move.note t).IsRecorded settings (after (ts.forM (noteType settings)) s).analysis := by
  induction ts generalizing s with
  | nil => cases ht
  | cons t' ts ih =>
    rcases List.mem_cons.mp ht with rfl | ht
    · exact (recorded_noteType t s).mono (grows_notes ts _)
    · exact ih ht ((noteType settings t').after s)

/-- **What the visit does at a node that it meets is recorded at the end.** -/
theorem recorded_of_meets (h : Meets settings mode e position x q) {step : Move}
    (hstep : step ∈ stepsAll (Moves.ofExpr settings mode x q)) :
    step.IsRecorded settings (run settings mode e position) := by
  rw [after_run]
  exact (recorded_tree h hstep _ rfl).mono (grows_notes _ _)

end Visit

end TreeScribe
