import TreeScribe.Proofs.Layout.Metrics
import TreeScribe.Render.Initializer

/-! The layout of initializers.

Whether a set of items is long is found out from within: a nested set that is long makes the set around it
long. How a set is written is handed on from without. Together, all sets of an initializer have the same
layout, and it is the long one exactly if one of them is long on its own (`one_layout`).

The layout is chosen by the length that the items would have on one line, which is computed and not
measured. It is exact but for an empty set within, which is taken to be one character longer than it is
(`onOneLine_initializer_iff`). -/
namespace TreeScribe.Render.Item

open Atoms

/-! ### One layout for all sets -/

/-- What stands between two items. -/
def between (long : Bool) : Atoms := text "," ++ if long then newline else space

mutual

/-- An item in which all sets have the same layout. -/
def uniform (long : Bool) : Item → Atoms
  | .value d => d.atoms
  | .named name d => text name ++ text " = " ++ d.atoms
  | .nested name items =>
    text name ++ text " =" ++ inBraces long items.length (joinedBy (between long) (uniformAll long items))

def uniformAll (long : Bool) : List Item → List Atoms
  | [] => []
  | item :: items => uniform long item :: uniformAll long items

end

/-- Items with commas between them, in one layout. -/
def contents (long : Bool) (items : List Item) : Atoms :=
  joinedBy (between long) (items.map (uniform long))

/-- A set of items, all sets in it in one layout. -/
def uniformSet (long : Bool) (items : List Item) : Atoms := inBraces long items.length (contents long items)

mutual

/-- The sets of items within an item, at any depth. -/
def sets : Item → List (List Item)
  | .value _ | .named _ _ => []
  | .nested _ items => items :: setsAll items

def setsAll : List Item → List (List Item)
  | [] => []
  | item :: items => sets item ++ setsAll items

end

/-- The document of an item takes several lines. -/
def breaksLine : Item → Bool
  | .value d | .named _ d => d.isMultiLine
  | .nested _ _ => false

/-- The items do not fit on one line, whatever is in nested sets. -/
def IsLongAlone (items : List Item) : Prop := limit < contentsSize items ∨ ∃ item ∈ items, item.breaksLine = true

theorem uniformAll_eq (long : Bool) (items : List Item) : uniformAll long items = items.map (uniform long) := by
  induction items with
  | nil => rfl
  | cons item items ih => rw [uniformAll, ih, List.map_cons]

theorem uniform_nested (long : Bool) (name : String) (items : List Item) :
    uniform long (.nested name items) = text name ++ text " =" ++ uniformSet long items := by
  rw [uniform, uniformAll_eq]
  rfl

mutual

theorem isMultiLine_iff : (item : Item) →
    (item.isMultiLine = true ↔ item.breaksLine = true ∨ ∃ s ∈ item.sets, IsLongAlone s)
  | .value d | .named _ d => by simp [isMultiLine, breaksLine, sets]
  | .nested name items => by
    have hitems := anyMultiLine_iff items
    simp only [isMultiLine, breaksLine, sets, Bool.or_eq_true, decide_eq_true_iff, List.exists_mem_cons_iff, hitems,
      IsLongAlone]
    grind

theorem anyMultiLine_iff : (items : List Item) →
    (anyMultiLine items = true ↔ (∃ item ∈ items, item.breaksLine = true) ∨ ∃ s ∈ setsAll items, IsLongAlone s)
  | [] => by simp [anyMultiLine, setsAll]
  | item :: items => by
    have hitem := isMultiLine_iff item
    have hitems := anyMultiLine_iff items
    simp only [anyMultiLine, setsAll, Bool.or_eq_true, hitem, hitems, List.exists_mem_cons_iff, List.mem_append]
    grind

end

/-- A set is long exactly if it or a set within is long on its own. -/
theorem isLong_iff (items : List Item) :
    isLong items = true ↔ ∃ s ∈ items :: setsAll items, IsLongAlone s := by
  rw [isLong, Bool.or_eq_true, decide_eq_true_iff, anyMultiLine_iff, List.exists_mem_cons_iff, ← or_assoc]
  rfl

theorem writeAll_cons (long : Bool) (item : Item) {items : List Item} (h : items ≠ []) :
    writeAll long (item :: items) = write long item ++ between long ++ writeAll long items := by
  rw [writeAll, between]
  · simp only [List.append_assoc]
  · exact h

theorem contents_cons (long : Bool) (item : Item) {items : List Item} (h : items ≠ []) :
    contents long (item :: items) = uniform long item ++ between long ++ contents long items := by
  rw [contents, List.map_cons, joinedBy]
  · rfl
  · simpa using h

mutual

/-- What is handed on is what would be found out. -/
theorem write_eq {long : Bool} : (item : Item) → (long = false → item.isMultiLine = false) →
    write long item = uniform long item
  | .value _, _ | .named _ _, _ => rfl
  | .nested name items, h => by
    have hlong : (long || isLong items) = long := by
      cases long with
      | true => rfl
      | false => exact h rfl
    have hitems : long = false → anyMultiLine items = false := fun hshort =>
      (Bool.or_eq_false_iff.mp (h hshort)).2
    rw [write, uniform_nested, hlong, writeAll_eq items hitems]
    rfl

theorem writeAll_eq {long : Bool} : (items : List Item) → (long = false → anyMultiLine items = false) →
    writeAll long items = contents long items
  | [], _ => rfl
  | item :: items, h => by
    have hitem := write_eq item fun hshort => (Bool.or_eq_false_iff.mp (h hshort)).1
    have hitems := writeAll_eq items fun hshort => (Bool.or_eq_false_iff.mp (h hshort)).2
    by_cases hlast : items = []
    · subst hlast
      exact hitem
    · rw [writeAll_cons long item hlast, contents_cons long item hlast, hitem, hitems]

end

/-- All sets have the layout of the outermost. -/
theorem initializer_eq (items : List Item) : initializer items = uniformSet (isLong items) items := by
  have hshort : isLong items = false → anyMultiLine items = false := fun h =>
    (Bool.or_eq_false_iff.mp h).2
  rw [initializer, uniformSet, writeAll_eq items hshort]

theorem isInfix_joinedBy (separator : Atoms) {as : Atoms} {parts : List Atoms} (h : as ∈ parts) :
    as <:+: joinedBy separator parts := by
  induction parts with
  | nil => cases h
  | cons bs rest ih =>
    cases rest with
    | nil =>
      rw [List.mem_singleton.mp h]
      exact List.infix_rfl
    | cons cs rest =>
      rcases List.mem_cons.mp h with rfl | h
      · exact (List.prefix_append ..).isInfix.trans (List.prefix_append ..).isInfix
      · exact (ih h).trans (List.suffix_append ..).isInfix

theorem contents_isInfix (long : Bool) {items : List Item} (h : items ≠ []) :
    contents long items <:+: uniformSet long items := by
  have hcount : items.length ≠ 0 := by simpa using h
  rw [uniformSet, inBraces, if_neg hcount]
  split
  · exact ⟨newline ++ [Atom.opening "\x7b", .indent] ++ newline, [Atom.unindent] ++ newline ++ [Atom.closing "\x7d"], by
      simp [bracketed, indented]⟩
  · exact ⟨[.opening " \x7b "], [.closing " \x7d"], rfl⟩

theorem uniform_isInfix (long : Bool) {item : Item} {items : List Item} (h : item ∈ items) :
    uniform long item <:+: uniformSet long items :=
  (isInfix_joinedBy _ (List.mem_map_of_mem h)).trans (contents_isInfix long (List.ne_nil_of_mem h))

mutual

theorem uniformSet_isInfix (long : Bool) : (item : Item) → ∀ s ∈ item.sets, uniformSet long s <:+: uniform long item
  | .value _ | .named _ _ => nofun
  | .nested name items => fun s hs => by
    have hset : uniformSet long items <:+: uniform long (.nested name items) := by
      rw [uniform_nested]
      exact (List.suffix_append ..).isInfix
    rcases List.mem_cons.mp hs with rfl | hs
    · exact hset
    · obtain ⟨item, hitem, hwithin⟩ := uniformSet_isInfix_of_mem long items s hs
      exact (hwithin.trans (uniform_isInfix long hitem)).trans hset

theorem uniformSet_isInfix_of_mem (long : Bool) : (items : List Item) → ∀ s ∈ setsAll items,
    ∃ item ∈ items, uniformSet long s <:+: uniform long item
  | [] => nofun
  | item :: items => fun s hs => by
    rcases List.mem_append.mp hs with hs | hs
    · exact ⟨item, List.mem_cons_self .., uniformSet_isInfix long item s hs⟩
    · obtain ⟨item', hitem, hwithin⟩ := uniformSet_isInfix_of_mem long items s hs
      exact ⟨item', List.mem_cons_of_mem _ hitem, hwithin⟩

end

/-- The characters that are written. -/
def textLength (as : Atoms) : Nat := (as.flatMap Atom.chars).length

theorem length_append (as bs : Atoms) : textLength (as ++ bs) = textLength as + textLength bs := by
  rw [textLength, List.flatMap_append, List.length_append]
  rfl

theorem length_text (s : String) : textLength (text s) = s.length := by
  rw [textLength, text, chars_token, String.length_toList]

theorem length_atoms (d : Doc) : textLength d.atoms = d.size := length_chars d.atoms

/-- No line is broken. -/
def OnOneLine (as : Atoms) : Prop := '\n' ∉ as.flatMap Atom.chars

instance (as : Atoms) : Decidable (OnOneLine as) := inferInstanceAs (Decidable (¬_))

theorem onOneLine_append {as bs : Atoms} : OnOneLine (as ++ bs) ↔ OnOneLine as ∧ OnOneLine bs := by
  simp [OnOneLine]

theorem OnOneLine.of_isInfix {as bs : Atoms} (h : OnOneLine bs) (hwithin : as <:+: bs) : OnOneLine as := by
  obtain ⟨xs, ys, rfl⟩ := hwithin
  exact (onOneLine_append.mp (onOneLine_append.mp h).1).2

/-- How many of the sets are empty. -/
def emptyCount (sets : List (List Item)) : Nat := sets.countP (·.isEmpty)

theorem contentsSize_cons (item : Item) {items : List Item} (h : items ≠ []) :
    contentsSize (item :: items) = item.size + 2 + contentsSize items := by
  have hlength := List.length_pos_iff.mpr h
  rw [contentsSize, contentsSize, sizes, List.length_cons]
  omega

/-- A set on one line. -/
theorem uniformSet_false {items : List Item} (h : items ≠ []) :
    uniformSet false items = [Atom.opening " \x7b "] ++ contents false items ++ [Atom.closing " \x7d"] := by
  have hcount : items.length ≠ 0 := by simpa using h
  rw [uniformSet, inBraces, if_neg hcount]
  rfl

mutual

/-- The size that is computed for an item is its length on one line, and one more for each empty set in it. -/
theorem size_eq : (item : Item) → item.size = textLength (uniform false item) + emptyCount item.sets
  | .value d => by rw [size, uniform, length_atoms, sets, emptyCount, List.countP_nil, Nat.add_zero]
  | .named name d => by
    rw [size, uniform, length_append, length_append, length_text, length_text, length_atoms, sets, emptyCount,
      List.countP_nil]
    rfl
  | .nested name items => by
    have hitems := contentsSize_eq items
    rw [size, ← contentsSize, uniform_nested, length_append, length_append, length_text, length_text, sets, emptyCount,
      List.countP_cons, hitems, emptyCount]
    have hlead : " =".length = 2 := rfl
    by_cases hempty : items = []
    · subst hempty
      have hset : textLength (uniformSet false []) = 4 := rfl
      have hcontents : textLength (contents false []) = 0 := rfl
      simp only [hset, hcontents, hlead, setsAll, List.countP_nil, List.isEmpty_nil, if_true]
    · have hset : textLength (uniformSet false items) = textLength (contents false items) + 5 := by
        have hopening : textLength [.opening " \x7b "] = 3 := rfl
        have hclosing : textLength [.closing " \x7d"] = 2 := rfl
        rw [uniformSet_false hempty, length_append, length_append, hopening, hclosing]
        omega
      have hne : items.isEmpty = false := by simpa using hempty
      simp only [hset, hlead, hne, Bool.false_eq_true, if_false]
      omega

theorem contentsSize_eq : (items : List Item) →
    contentsSize items = textLength (contents false items) + emptyCount (setsAll items)
  | [] => rfl
  | item :: items => by
    have hitem := size_eq item
    have hitems := contentsSize_eq items
    have hsets : emptyCount (setsAll (item :: items)) = emptyCount item.sets + emptyCount (setsAll items) :=
      List.countP_append
    by_cases hlast : items = []
    · subst hlast
      have hone : contentsSize [item] = item.size := by simp [contentsSize, sizes]
      rw [hone, hitem, hsets]
      rfl
    · have hbetween : textLength (between false) = 2 := rfl
      rw [contentsSize_cons item hlast, contents_cons _ _ hlast, length_append, length_append, hbetween, hsets]
      omega

end

/-! ### The threshold -/

theorem onOneLine_contents {items : List Item} :
    OnOneLine (contents false items) ↔ ∀ item ∈ items, OnOneLine (uniform false item) := by
  have hbetween : OnOneLine (between false) := by decide
  induction items with
  | nil => simp [contents, joinedBy, OnOneLine]
  | cons item items ih =>
    by_cases hlast : items = []
    · simp [hlast, contents, joinedBy]
    · rw [contents_cons _ _ hlast, onOneLine_append, onOneLine_append, List.forall_mem_cons]
      tauto

theorem isMultiLine_doc {d : Doc} (h : OnOneLine d.atoms) : d.isMultiLine = false := by
  have hcount : d.atoms.count .newline = 0 := by
    rw [List.count_eq_zero]
    intro hmem
    exact h (List.mem_flatMap.mpr ⟨.newline, hmem, List.mem_singleton_self _⟩)
  unfold Doc.isMultiLine Doc.lines
  rw [hcount]
  split <;> rfl

mutual

/-- What has room on one line, and breaks none, is not taken to need several. -/
theorem isMultiLine_of_onOneLine : (item : Item) → item.size ≤ limit → OnOneLine (uniform false item) →
    item.isMultiLine = false
  | .value _, _, h => isMultiLine_doc h
  | .named _ _, _, h => isMultiLine_doc (onOneLine_append.mp h).2
  | .nested name items, hsize, h => by
    have hcontents : contentsSize items ≤ limit := by
      rw [size, ← contentsSize] at hsize
      omega
    rw [uniform_nested] at h
    have hitems := anyMultiLine_of_onOneLine items hcontents fun item hitem =>
      (onOneLine_append.mp h).2.of_isInfix (uniform_isInfix false hitem)
    rw [isMultiLine, hitems, Bool.or_false, decide_eq_false_iff_not]
    exact Nat.not_lt.mpr hcontents

theorem anyMultiLine_of_onOneLine : (items : List Item) → contentsSize items ≤ limit →
    (∀ item ∈ items, OnOneLine (uniform false item)) → anyMultiLine items = false
  | [], _, _ => rfl
  | item :: items, hsize, h => by
    have hsizes : item.size + contentsSize items ≤ contentsSize (item :: items) := by
      rw [contentsSize, contentsSize, sizes, List.length_cons]
      omega
    obtain ⟨hitem, hitems⟩ := List.forall_mem_cons.mp h
    rw [anyMultiLine, isMultiLine_of_onOneLine item (by omega) hitem,
      anyMultiLine_of_onOneLine items (by omega) hitems]
    rfl

end

/-- The long layout breaks lines. -/
theorem not_onOneLine_uniformSet {items : List Item} (h : items ≠ []) : ¬OnOneLine (uniformSet true items) := by
  have hcount : items.length ≠ 0 := by simpa using h
  rw [uniformSet, inBraces, if_neg hcount, if_pos rfl, onOneLine_append]
  exact fun hline => absurd hline.1 (by decide)

/-- **An initializer stands on one line exactly if none of its items takes several and they take at most
forty characters**, where one more is counted for each empty set in it. -/
theorem onOneLine_initializer_iff (items : List Item) :
    OnOneLine (initializer items) ↔
      (∀ item ∈ items, OnOneLine (uniform false item)) ∧
        textLength (contents false items) + emptyCount (setsAll items) ≤ 40 := by
  rw [initializer_eq, ← contentsSize_eq]
  cases hlong : isLong items with
  | true =>
    have hne : items ≠ [] := by
      rintro rfl
      cases hlong
    refine iff_of_false (not_onOneLine_uniformSet hne) fun ⟨hitems, hsize⟩ => ?_
    have hshort : isLong items = false := by
      rw [isLong, anyMultiLine_of_onOneLine items hsize hitems, Bool.or_false, decide_eq_false_iff_not]
      exact Nat.not_lt.mpr hsize
    rw [hlong] at hshort
    cases hshort
  | false =>
    have hsize : contentsSize items ≤ 40 := by
      have hlimit := (Bool.or_eq_false_iff.mp hlong).1
      exact Nat.not_lt.mp (decide_eq_false_iff_not.mp hlimit)
    simp only [hsize, and_true]
    by_cases hempty : items = []
    · subst hempty
      exact iff_of_true (by decide) (List.forall_mem_nil _)
    · rw [← onOneLine_contents, uniformSet_false hempty, onOneLine_append, onOneLine_append]
      have hopening : OnOneLine [.opening " \x7b "] := by decide
      have hclosing : OnOneLine [.closing " \x7d"] := by decide
      tauto

/-- An empty set in a member with a name of 34 characters has the forty characters, and a line of
its own. -/
example :
    let items := [nested (String.ofList (List.replicate 34 'x')) []]
    textLength (contents false items) = 40 ∧ ¬OnOneLine (initializer items) := by
  decide

end TreeScribe.Render.Item
