import Mathlib.Algebra.GroupWithZero.Nat
import Mathlib.Data.List.SplitLengths
import TreeScribe.TypeRef.Name

/-! How the flattened arguments of a nested generic type are shared out among its enclosing types.

Each type of the chain takes as many arguments as it declares parameters, the outermost first, and a cursor
keeps track of where its share starts. Where the parameters of the whole chain are as many as there are
arguments, the shares are the arguments cut into pieces of these lengths (`chainSegments_eq`): none is left
out, repeated or moved, in the type itself and in all types that its name is made of
(`segments_divided`). -/
namespace TreeScribe.TypeRef

/-! ### The cursor -/

/-- The name of one type of a chain, with the names of its own arguments if it has any. -/
def ownSegments (t : TypeRef) (names : List (List Segment)) : List Segment :=
  (t.shortName, t.nameClass) :: if names.isEmpty then [] else argumentList names

/-- The names of a chain, the outermost with its namespace and a point before each of the others. -/
def sharedSegments (o : TypeNameOptions) : List (TypeRef × List (List Segment)) → List Segment
  | [] => []
  | (t, names) :: rest =>
    namespaceSegments o t ++ ownSegments t names ++ rest.flatMap fun r => plain "." :: ownSegments r.1 r.2

variable (o : TypeNameOptions) {names : List (List Segment)}

/-- A type takes its share, and the cursor moves on by as many arguments. -/
theorem chainSegments_cons (first : Bool) {cursor : Nat} {t : TypeRef} (ts : List TypeRef)
    (h : cursor + t.ownArity ≤ names.length) :
    chainSegments o names first cursor (t :: ts) =
      (if first then namespaceSegments o t else [plain "."]) ++
        ownSegments t ((names.drop cursor).take t.ownArity) ++
          chainSegments o names false (cursor + t.ownArity) ts := by
  have hstop : argumentsEnd cursor t.ownArity names.length = cursor + t.ownArity := Nat.min_eq_left h
  have hempty : ((names.drop cursor).take t.ownArity).isEmpty = decide (t.ownArity = 0) := by
    rw [Bool.eq_iff_iff, List.isEmpty_iff_length_eq_zero, List.length_take, List.length_drop, decide_eq_true_iff]
    omega
  rw [chainSegments, hstop, ownSegments, hempty]
  by_cases harity : t.ownArity = 0
  · simp [harity]
  · simp [harity, Nat.pos_of_ne_zero harity]

theorem chainSegments_false {cursor : Nat} {ts : List TypeRef}
    (h : cursor + (ts.map ownArity).sum = names.length) :
    chainSegments o names false cursor ts =
      (ts.zip ((ts.map ownArity).splitLengths (names.drop cursor))).flatMap
        fun r => plain "." :: ownSegments r.1 r.2 := by
  induction ts generalizing cursor with
  | nil => rfl
  | cons t ts ih =>
    rw [List.map_cons, List.sum_cons, ← Nat.add_assoc] at h
    rw [chainSegments_cons o false ts (by omega), ih h, List.map_cons, List.splitLengths_cons,
      List.zip_cons_cons, List.flatMap_cons, List.drop_drop]
    rfl

/-- **The shares are the arguments, cut in order.** -/
theorem chainSegments_eq {ts : List TypeRef} (h : (ts.map ownArity).sum = names.length) :
    chainSegments o names true 0 ts =
      sharedSegments o (ts.zip ((ts.map ownArity).splitLengths names)) := by
  cases ts with
  | nil => rfl
  | cons t ts =>
    rw [List.map_cons, List.sum_cons] at h
    rw [chainSegments_cons o true ts (by omega), chainSegments_false o (by omega),
      List.map_cons, List.splitLengths_cons, List.zip_cons_cons, sharedSegments, Nat.zero_add, List.drop_zero]
    rfl

/-! ### Whole names -/

/-- The name of the type consists of names of types: it is no array or parameter, and has no name of a sort
of its own. -/
structure IsNamed (t : TypeRef) : Prop where
  element : t.element = none
  notParameter : t.isParameter = false
  notNullable : t.isNullable = false
  notAnonymous : t.isAnonymous = false
  notKeyword : t.keyword? = none

/-- A generic type whose chain declares as many parameters as there are arguments. No list holds more than
a word can count. -/
structure IsDivided (t : TypeRef) : Prop extends IsNamed t where
  generic : t.isGeneric = true
  arities : (t.chain.map ownArity).sum = t.args.length
  count : t.args.length < 2 ^ 64

/-- The arguments of each type of the chain. -/
def shares (t : TypeRef) : List (List TypeRef) := (t.chain.map ownArity).splitLengths t.args

/-- How a type is written, and how the types are written that its name is made of. -/
inductive Spells (o : TypeNameOptions) : TypeRef → List Segment → Prop
  | array {t e : TypeRef} {name : List Segment} (helement : t.element = some e) (h : Spells o e name) :
    Spells o t (name ++ [plain (brackets t.rank)])
  | parameter {t : TypeRef} (helement : t.element = none) (hparameter : t.isParameter = true) :
    Spells o t [(t.name, .interfaceName)]
  | nullable {t e : TypeRef} {name : List Segment} (helement : t.element = none)
      (hparameter : t.isParameter = false) (hnullable : t.isNullable = true) (hargs : t.args = [e])
      (h : Spells o e name) : Spells o t (name ++ [plain "?"])
  | anonymous {t : TypeRef} {name : TypeRef → List Segment} (helement : t.element = none)
      (hparameter : t.isParameter = false) (hnullable : t.isNullable = false) (hanonymous : t.isAnonymous = true)
      (hnamer : o.anonymousNamer = none) (h : ∀ a ∈ t.args, Spells o a (name a)) :
    Spells o t (("AnonymousType", .typeName) :: if t.isGeneric then argumentList (t.args.map name) else [])
  | renamed {t : TypeRef} {namer : TypeRef → String} (helement : t.element = none)
      (hparameter : t.isParameter = false) (hnullable : t.isNullable = false) (hanonymous : t.isAnonymous = true)
      (hnamer : o.anonymousNamer = some namer) : Spells o t [(namer t, .typeName)]
  | keyword {t : TypeRef} {word : String} (helement : t.element = none) (hparameter : t.isParameter = false)
      (hnullable : t.isNullable = false) (hanonymous : t.isAnonymous = false) (hkeyword : t.keyword? = some word) :
    Spells o t [(word, .keyword)]
  /-- Each type of the chain has its share of the arguments behind its name. -/
  | divided {t : TypeRef} {name : TypeRef → List Segment} (hdivided : t.IsDivided)
      (h : ∀ a ∈ t.args, Spells o a (name a)) :
    Spells o t (sharedSegments o (t.chain.zip (t.shares.map (·.map name))))
  /-- Nothing is said of a type with more or fewer arguments than its chain has parameters. -/
  | undivided {t : TypeRef} (hnamed : t.IsNamed) (hgeneric : t.isGeneric = true) (hdivided : ¬t.IsDivided) :
    Spells o t (t.segments o)
  | nested {t outer : TypeRef} {name : List Segment} (hnamed : t.IsNamed) (hgeneric : t.isGeneric = false)
      (houter : t.declaring = some outer) (h : Spells o outer name) :
    Spells o t (name ++ [plain ".", (t.shortName, t.nameClass)])
  | top {t : TypeRef} (hnamed : t.IsNamed) (hgeneric : t.isGeneric = false) (houter : t.declaring = none) :
    Spells o t (namespaceSegments o t ++ [(t.shortName, t.nameClass)])

theorem segmentsAll_eq (ts : List TypeRef) : segmentsAll o ts = ts.map (segments o) := by
  induction ts with
  | nil => rfl
  | cons t ts ih => rw [segmentsAll, ih, List.map_cons]

theorem map_splitLengths {α β : Type} (f : α → β) (lengths : List Nat) (xs : List α) :
    lengths.splitLengths (xs.map f) = (lengths.splitLengths xs).map (·.map f) := by
  induction lengths generalizing xs with
  | nil => rfl
  | cons n lengths ih =>
    rw [List.splitLengths_cons, List.splitLengths_cons, ← List.map_take, ← List.map_drop, ih, List.map_cons]

variable {o} {t : TypeRef}

/-- The name of a type that is no array, by what sort of type it is. -/
theorem segments_eq (helement : t.element = none) : t.segments o =
    if t.isParameter then [(t.name, .interfaceName)]
    else if t.isNullable then (t.args.map (segments o)).flatten ++ [plain "?"]
    else if t.isAnonymous then
      match o.anonymousNamer with
      | some namer => [(namer t, .typeName)]
      | none =>
        ("AnonymousType", .typeName) ::
          (if t.isGeneric then argumentList (t.args.map (segments o)) else [])
    else
      match t.keyword? with
      | some keyword => [(keyword, .keyword)]
      | none =>
        if t.isGeneric then chainSegments o (t.args.map (segments o)) true 0 t.chain
        else
          (match t.declaring with
          | some outer => segments o outer ++ [plain "."]
          | none => namespaceSegments o t) ++ [(t.shortName, t.nameClass)] := by
  obtain ⟨k, space, name, declaring, args, element, rank, anonymous, closure⟩ := t
  have helement : element = none := helement
  subst helement
  rw [segments.eq_def]
  dsimp only
  rewrite [segmentsAll_eq]
  rfl

theorem IsNamed.segments_eq (h : t.IsNamed) (hgeneric : t.isGeneric = true) :
    t.segments o = chainSegments o (t.args.map (segments o)) true 0 t.chain := by
  simp [TypeRef.segments_eq h.element, h.notParameter, h.notNullable, h.notAnonymous, h.notKeyword, hgeneric]

/-- The arguments of a divided type are written share by share. -/
theorem IsDivided.segments_eq (h : t.IsDivided) :
    t.segments o = sharedSegments o (t.chain.zip (t.shares.map (·.map (segments o)))) := by
  rw [h.toIsNamed.segments_eq h.generic, chainSegments_eq o (by simpa using h.arities),
    map_splitLengths, shares]

theorem exists_of_isNullable (h : t.isNullable = true) : ∃ e, t.args = [e] := by
  unfold isNullable at h
  rw [Bool.and_eq_true, beq_iff_eq] at h
  exact List.length_eq_one_iff.mp h.2

/-- The name of a type is spelled in this way if the names of its parts are. -/
theorem spells_of_parts (hshown : o.hideElement = false) (helement : ∀ e ∈ t.element, Spells o e (e.segments o))
    (hargs : ∀ a ∈ t.args, Spells o a (a.segments o)) (houter : ∀ u ∈ t.declaring, Spells o u (u.segments o)) :
    Spells o t (t.segments o) := by
  cases hcase : t.element with
  | some e =>
    have hname : t.segments o = e.segments o ++ [plain (brackets t.rank)] := by
      obtain ⟨k, space, name, declaring, args, element, rank, anonymous, closure⟩ := t
      have hcase : element = some e := hcase
      subst hcase
      rw [segments, hshown]
      rfl
    rw [hname]
    exact .array hcase (helement e hcase)
  | none =>
    cases hparameter : t.isParameter with
    | true => simpa [segments_eq hcase, hparameter] using Spells.parameter hcase hparameter
    | false =>
    cases hnullable : t.isNullable with
    | true =>
      obtain ⟨e, he⟩ := exists_of_isNullable hnullable
      have hname := hargs e (by simp [he])
      simpa [segments_eq hcase, hparameter, hnullable, he] using
        Spells.nullable hcase hparameter hnullable he hname
    | false =>
    cases hanonymous : t.isAnonymous with
    | true =>
      rw [segments_eq hcase, hparameter, hnullable, hanonymous]
      cases hnamer : o.anonymousNamer with
      | some namer => exact .renamed hcase hparameter hnullable hanonymous hnamer
      | none => exact .anonymous hcase hparameter hnullable hanonymous hnamer hargs
    | false =>
    cases hkeyword : t.keyword? with
    | some word =>
      rw [segments_eq hcase, hparameter, hnullable, hanonymous, hkeyword]
      exact .keyword hcase hparameter hnullable hanonymous hkeyword
    | none =>
    have hnamed : t.IsNamed := ⟨hcase, hparameter, hnullable, hanonymous, hkeyword⟩
    cases hgeneric : t.isGeneric with
    | true =>
      by_cases hdivided : t.IsDivided
      · rw [hdivided.segments_eq]
        exact .divided hdivided hargs
      · exact .undivided hnamed hgeneric hdivided
    | false =>
    rw [segments_eq hcase, hparameter, hnullable, hanonymous, hkeyword, hgeneric]
    cases hdeclaring : t.declaring with
    | some outer =>
      have hname := houter outer hdeclaring
      simpa using Spells.nested hnamed hgeneric hdeclaring hname
    | none => exact .top hnamed hgeneric hdeclaring

mutual

/-- **All names are spelled in this way**, if the elements of arrays are shown. -/
theorem spells_segments (hshown : o.hideElement = false) : (t : TypeRef) → Spells o t (t.segments o)
  | ⟨_, _, _, declaring, args, element, _, _, _⟩ =>
    spells_of_parts hshown (spells_option hshown element) (spells_list hshown args)
      (spells_option hshown declaring)

theorem spells_option (hshown : o.hideElement = false) : (t? : Option TypeRef) → ∀ t ∈ t?, Spells o t (t.segments o)
  | none => nofun
  | some t => fun u hu => by
    obtain rfl : t = u := Option.some.inj hu
    exact spells_segments hshown t

theorem spells_list (hshown : o.hideElement = false) : (ts : List TypeRef) → ∀ t ∈ ts, Spells o t (t.segments o)
  | [] => nofun
  | t :: ts => List.forall_mem_cons.mpr ⟨spells_segments hshown t, spells_list hshown ts⟩

end

/-- **Each type of the chain takes the arguments for its own parameters**, in order and each once, and the
arguments are spelled in the same way. -/
theorem segments_divided (hshown : o.hideElement = false) (h : t.IsDivided) :
    t.shares.flatten = t.args ∧ t.shares.map List.length = t.chain.map ownArity ∧
      t.segments o = sharedSegments o (t.chain.zip (t.shares.map (·.map (segments o)))) ∧
      ∀ a ∈ t.args, Spells o a (a.segments o) :=
  ⟨List.flatten_splitLengths _ _ h.arities.ge, List.map_splitLengths_length _ _ h.arities.le, h.segments_eq,
    spells_list hshown t.args⟩

/-- `Outer<List<int>[]>.Middle.Inner<bool?, string>` -/
def inner : TypeRef :=
  let list := (named .classType "System.Collections.Generic" "List\x601").withArgs [int]
  let outer := named .classType "Demo" "Outer\x601"
  let middle := (named .classType "" "Middle").nestedIn outer
  ((named .classType "" "Inner\x602").nestedIn middle).withArgs [arrayOf list, nullable bool, string]

/-- `Middle` declares no parameters, so that no list stands behind it. -/
theorem segments_divided_inner :
    inner.IsDivided ∧ inner.shares.map List.length = [1, 0, 2] ∧
      (inner.segments {}).map (·.1) = ["Outer", "<", "List", "<", "int", ">", "[]", ">", ".", "Middle", ".", "Inner",
        "<", "bool", "?", ", ", "string", ">"] ∧
      ∀ a ∈ inner.args, Spells {} a (a.segments {}) := by
  have hdivided : inner.IsDivided := by
    constructor
    · constructor <;> decide +kernel
    all_goals decide +kernel
  obtain ⟨-, hlengths, hsegments, hspells⟩ := segments_divided (o := {}) rfl hdivided
  refine ⟨hdivided, hlengths.trans (by decide +kernel), ?_, hspells⟩
  rw [hsegments]
  decide +kernel

end TreeScribe.TypeRef
