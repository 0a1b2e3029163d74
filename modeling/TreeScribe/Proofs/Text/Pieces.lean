import TreeScribe.Text.Lines
import Mathlib.Data.List.Basic

/-! Texts in pieces, and texts without the blanks around them.

Cutting a text at a separator and joining what it gives are inverse to each other: joined pieces are the text
(`intercalate_splitOn`), and pieces without the separator are found again (`splitOn_intercalate`). -/
namespace TreeScribe.Text

/-! ### Cutting and joining -/

theorem splitOn_ne_nil (sep : Char) (cs : List Char) : splitOn sep cs ≠ [] := by
  cases cs with
  | nil => exact List.cons_ne_nil _ _
  | cons c rest =>
    unfold splitOn
    split
    · exact List.cons_ne_nil _ _
    · split <;> exact List.cons_ne_nil _ _

/-- The pieces are the text. -/
theorem intercalate_splitOn (sep : Char) (cs : List Char) : [sep].intercalate (splitOn sep cs) = cs := by
  induction cs with
  | nil => rfl
  | cons c rest ih =>
    obtain ⟨piece, pieces, hrest⟩ := List.exists_cons_of_ne_nil (splitOn_ne_nil sep rest)
    rw [hrest] at ih
    rw [splitOn, hrest]
    split
    next hc =>
      rw [List.intercalate_cons_of_ne_nil (List.cons_ne_nil _ _), ih, hc]
      rfl
    next =>
      dsimp only
      cases pieces with
      | nil => rw [List.intercalate_singleton] at ih ⊢; rw [ih]
      | cons next pieces =>
        rw [List.intercalate_cons_of_ne_nil (List.cons_ne_nil _ _)] at ih ⊢
        rw [List.cons_append, List.cons_append, ih]

theorem splitOn_of_notMem {sep : Char} {cs : List Char} (h : sep ∉ cs) : splitOn sep cs = [cs] := by
  induction cs with
  | nil => rfl
  | cons c cs ih =>
    obtain ⟨hc, hcs⟩ := not_or.mp (mt List.mem_cons.mpr h)
    rw [splitOn, if_neg (Ne.symm hc), ih hcs]

theorem splitOn_append {sep : Char} {cs : List Char} (h : sep ∉ cs) (rest : List Char) :
    splitOn sep (cs ++ sep :: rest) = cs :: splitOn sep rest := by
  induction cs with
  | nil => rw [List.nil_append, splitOn, if_pos rfl]
  | cons c cs ih =>
    obtain ⟨hc, hcs⟩ := not_or.mp (mt List.mem_cons.mpr h)
    rw [List.cons_append, splitOn, if_neg (Ne.symm hc), ih hcs]

/-- Pieces without the separator are found again. -/
theorem splitOn_intercalate {sep : Char} {pieces : List (List Char)} (hne : pieces ≠ [])
    (h : ∀ piece ∈ pieces, sep ∉ piece) : splitOn sep ([sep].intercalate pieces) = pieces := by
  induction pieces with
  | nil => exact absurd rfl hne
  | cons piece pieces ih =>
    have hpiece := h piece (List.mem_cons_self ..)
    by_cases hrest : pieces = []
    · subst hrest
      rw [List.intercalate_singleton, splitOn_of_notMem hpiece]
    · rw [List.intercalate_cons_of_ne_nil hrest, List.append_assoc, List.singleton_append,
        splitOn_append hpiece, ih hrest fun piece hmem => h piece (List.mem_cons_of_mem _ hmem)]

theorem notMem_of_mem_splitOn {sep : Char} {cs piece : List Char} (h : piece ∈ splitOn sep cs) :
    sep ∉ piece := by
  induction cs generalizing piece with
  | nil =>
    obtain rfl := List.mem_singleton.mp h
    exact List.not_mem_nil
  | cons c cs ih =>
    unfold splitOn at h
    obtain ⟨first, rest, hrest⟩ := List.exists_cons_of_ne_nil (splitOn_ne_nil sep cs)
    rw [hrest] at ih h
    split at h
    · obtain rfl | h := List.mem_cons.mp h
      · exact List.not_mem_nil
      · exact ih h
    next hc =>
      obtain rfl | h := List.mem_cons.mp h
      · rw [List.mem_cons, not_or]
        exact ⟨Ne.symm hc, ih (List.mem_cons_self ..)⟩
      · exact ih (List.mem_cons_of_mem _ h)

/-- A text without the separator in front goes with the first piece. -/
theorem splitOn_append_of_notMem {sep : Char} {lead : List Char} (h : sep ∉ lead) (cs : List Char) :
    ∃ first, splitOn sep (lead ++ cs) = (lead ++ first) :: (splitOn sep cs).tail := by
  obtain ⟨first, rest, hrest⟩ := List.exists_cons_of_ne_nil (splitOn_ne_nil sep cs)
  refine ⟨first, ?_⟩
  rw [hrest, List.tail_cons]
  induction lead with
  | nil => rw [List.nil_append, hrest, List.nil_append]
  | cons c lead ih =>
    obtain ⟨hc, hlead⟩ := not_or.mp (mt List.mem_cons.mpr h)
    rw [List.cons_append, splitOn, if_neg (Ne.symm hc), ih hlead]
    rfl

theorem intercalate_cons_eq (sep : Char) (x : List Char) (xs : List (List Char)) :
    [sep].intercalate (x :: xs) = x ++ xs.flatMap (sep :: ·) := by
  induction xs generalizing x with
  | nil => rw [List.intercalate_singleton, List.flatMap_nil, List.append_nil]
  | cons y xs ih =>
    rw [List.intercalate_cons_of_ne_nil (List.cons_ne_nil y xs), ih, List.flatMap_cons]
    simp

theorem newline_notMem_lines {cs line : List Char} (h : line ∈ lines cs) : '\n' ∉ line := by
  have hpiece {piece : List Char} (h : piece ∈ (splitOn '\n' cs).dropLast.map dropReturn) :
      '\n' ∉ piece := by
    obtain ⟨piece', hmem, rfl⟩ := List.mem_map.mp h
    have hsplit := notMem_of_mem_splitOn ((List.dropLast_sublist _).subset hmem)
    unfold dropReturn
    split
    · exact fun hnewline => hsplit ((List.dropLast_sublist _).subset hnewline)
    · exact hsplit
  unfold lines at h
  dsimp only at h
  split at h
  next last hlast =>
    split at h
    · exact hpiece h
    · obtain h | h := List.mem_append.mp h
      · exact hpiece h
      · obtain rfl := List.mem_singleton.mp h
        exact notMem_of_mem_splitOn (List.mem_of_getLast? hlast)
  · exact hpiece h

/-! ### Trimming -/

theorem trimEnd_subset (cs : List Char) : trimEnd cs ⊆ cs := by
  intro c hc
  exact List.mem_reverse.mp ((List.dropWhile_suffix _).subset (List.mem_reverse.mp hc))

theorem trim_subset (cs : List Char) : trim cs ⊆ cs := fun _ hc =>
  (List.dropWhile_suffix _).subset (trimEnd_subset _ hc)

theorem trim_eq_self {cs : List Char} (h : ∀ c ∈ cs, isBlank c = false) : trim cs = cs := by
  have hkept (ds : List Char) (hsubset : ds ⊆ cs) : ds.dropWhile isBlank = ds := by
    cases ds with
    | nil => rfl
    | cons d ds =>
      have hd : ¬isBlank d = true := by simp [h d (hsubset (List.mem_cons_self ..))]
      exact List.dropWhile_cons_of_neg hd
  have hreverse : cs.reverse ⊆ cs := fun c hc => List.mem_reverse.mp hc
  rw [trim, trimStart, hkept cs (List.Subset.refl cs), trimEnd, hkept _ hreverse, List.reverse_reverse]

end TreeScribe.Text
