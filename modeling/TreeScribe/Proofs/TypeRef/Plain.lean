import TreeScribe.Proofs.Layout.Brackets
import TreeScribe.Render.Initializer
import TreeScribe.Source.Name
import TreeScribe.TypeRef.Namespaces
import TreeScribe.TypeRef.Substitution

/-! Names without brackets.

All names that are made of a type, the written one and those that describe it, consist of the names in the
type (`TypeRef.texts`) and of what is put between them. Where the names in a type have no brackets, the
names made of it have only those of arrays. -/
namespace TreeScribe

/-- There are no brackets in any of the texts. -/
def AllPlain (texts : List String) : Prop := ∀ s ∈ texts, IsPlain s

instance (texts : List String) : Decidable (AllPlain texts) := inferInstanceAs (Decidable (∀ s ∈ texts, _))

@[simp, grind ←] theorem allPlain_nil : AllPlain [] := fun _ hs => nomatch hs

@[simp, grind =] theorem allPlain_cons {s : String} {texts : List String} :
    AllPlain (s :: texts) ↔ IsPlain s ∧ AllPlain texts :=
  List.forall_mem_cons

@[simp, grind =] theorem allPlain_append {texts texts' : List String} :
    AllPlain (texts ++ texts') ↔ AllPlain texts ∧ AllPlain texts' :=
  List.forall_mem_append

theorem allPlain_flatMap {α : Type} {f : α → List String} {as : List α} :
    AllPlain (as.flatMap f) ↔ ∀ a ∈ as, AllPlain (f a) := by
  simp only [AllPlain, List.mem_flatMap]
  grind

/-- The texts of what may be missing, after some others. -/
theorem allPlain_getD {α : Type} {f : α → List String} {a? : Option α} {texts : List String}
    (h : AllPlain (texts ++ (a?.map f).getD [])) : ∀ a ∈ a?, AllPlain (f a) := by
  rintro a rfl
  exact (allPlain_append.mp h).2

theorem AllPlain.mono {texts texts' : List String} (h : AllPlain texts') (hsubset : texts ⊆ texts') :
    AllPlain texts :=
  fun s hs => h s (hsubset hs)

theorem IsPlain.of_subset {s t : String} (h : IsPlain t) (hsubset : s.toList ⊆ t.toList) : IsPlain s :=
  fun c hc => h c (hsubset hc)

theorem IsPlain.nested {s : String} (h : IsPlain s) : IsNested s.toList := .of_plain h

/-! ### Characters that are no brackets -/

def brackets : List Char := ['(', ')', '[', ']', '\x7b', '\x7d']

theorem isBracket_iff (c : Char) : isBracket c = true ↔ c ∈ brackets := by
  simp only [isBracket, closer?, isCloser, brackets, List.mem_cons, List.not_mem_nil, or_false]
  grind

/-- A kind of characters to which no bracket belongs. -/
theorem isBracket_eq_false {f : Char → Bool} (hbrackets : ∀ b ∈ brackets, f b = false) {c : Char}
    (h : f c = true) : isBracket c = false := by
  by_contra hbracket
  rw [hbrackets c ((isBracket_iff c).mp (by simpa using hbracket))] at h
  cases h

theorem isPlain_nat (n : Nat) : IsPlain (toString n) := by
  intro c hc
  have htext : (toString n).toList = Nat.toDigits 10 n := by
    show (Nat.repr n).toList = _
    simp [Nat.repr]
  rw [htext] at hc
  exact isBracket_eq_false (by decide) (Nat.isDigit_of_mem_toDigits (by decide) (by decide) hc)

theorem isPlain_int (n : Int) : IsPlain (toString n) := by
  cases n with
  | ofNat n => exact isPlain_nat n
  | negSucc n =>
    have hminus : IsPlain "-" := by decide
    exact hminus.append (isPlain_nat (n + 1))

/-! ### Upper and lower case -/

namespace Text

/-- No character of a run moves to a bracket. -/
def avoidsBrackets (runs : List CaseRun) : Bool :=
  runs.all fun (first, last, _, offset) =>
    brackets.all fun b => !(first + offset ≤ b.toNat && b.toNat ≤ last + offset : Bool)

theorem toNat_ofNat (n : Nat) : (Char.ofNat n).toNat = if n.isValidChar then n else 0 := by
  unfold Char.ofNat
  by_cases h : n.isValidChar
  · rw [dif_pos h, if_pos h]
    rfl
  · rw [dif_neg h, if_neg h]
    rfl

theorem isBracket_changeCase {runs : List CaseRun} (hruns : avoidsBrackets runs = true) {c : Char}
    (h : isBracket c = false) : isBracket (changeCase runs c) = false := by
  unfold changeCase
  split
  next first last step offset hfound =>
    by_contra hbracket
    have hmem := (isBracket_iff _).mp (by simpa using hbracket)
    have hrun := List.all_eq_true.mp hruns _ (List.mem_of_find?_eq_some hfound)
    have havoids := List.all_eq_true.mp hrun _ hmem
    have hinside := List.find?_some hfound
    have hpositive : ∀ b ∈ brackets, 0 < b.toNat := by decide
    have hpositive := hpositive _ hmem
    simp only [Bool.and_eq_true, decide_eq_true_eq, Bool.not_eq_true', Bool.and_eq_false_iff,
      decide_eq_false_iff_not, toNat_ofNat] at havoids hinside hpositive
    split at hpositive
    next hvalid =>
      rw [if_pos hvalid] at havoids
      omega
    · omega
  · exact h

theorem isBracket_expandCase {expansions : List (Nat × List Nat)} {runs : List CaseRun}
    (hexpansions : expansions.all (fun e => e.2.all fun n => !isBracket (Char.ofNat n)) = true)
    (hruns : avoidsBrackets runs = true) {c : Char} (h : isBracket c = false) :
    ∀ d ∈ expandCase expansions runs c, isBracket d = false := by
  intro d hd
  unfold expandCase at hd
  split at hd
  next codes hfound =>
    have hcodes := List.all_eq_true.mp hexpansions _ (List.mem_of_find?_eq_some hfound)
    obtain ⟨n, hn, rfl⟩ := List.mem_map.mp hd
    simpa using List.all_eq_true.mp hcodes n hn
  · rw [List.mem_singleton.mp hd]
    exact isBracket_changeCase hruns h

theorem forall_ascii {P : Char → Prop} (h : ∀ n : Fin 128, P (Char.ofNat n)) {c : Char} (hc : c.toNat < 0x80) :
    P c := by
  have hchar := h ⟨c.toNat, hc⟩
  rwa [Char.ofNat_toNat] at hchar

theorem isBracket_upper {c : Char} (h : isBracket c = false) : ∀ d ∈ upper c, isBracket d = false := by
  unfold upper
  split
  next hascii =>
    revert h
    exact forall_ascii (P := fun c => isBracket c = false → ∀ d ∈ [c.toUpper], isBracket d = false) (by decide) hascii
  · exact isBracket_expandCase (by decide +kernel) (by decide +kernel) h

theorem isBracket_lower {c : Char} (h : isBracket c = false) : ∀ d ∈ lower c, isBracket d = false := by
  unfold lower
  split
  next hascii =>
    revert h
    exact forall_ascii (P := fun c => isBracket c = false → ∀ d ∈ [c.toLower], isBracket d = false) (by decide) hascii
  · exact isBracket_expandCase (by decide +kernel) (by decide +kernel) h

theorem isPlain_capitalize {s : String} (h : IsPlain s) : IsPlain (capitalize s) := by
  unfold capitalize
  unfold IsPlain at h
  split
  · decide
  next c rest hs =>
    rw [hs] at h
    obtain ⟨hc, hrest⟩ := List.forall_mem_cons.mp h
    intro d hd
    rw [String.toList_ofList] at hd
    exact (List.mem_append.mp hd).elim (isBracket_upper hc d) (hrest d)

theorem isPlain_uncapitalize {s : String} (h : IsPlain s) : IsPlain (uncapitalize s) := by
  unfold uncapitalize
  unfold IsPlain at h
  split
  · decide
  next c rest hs =>
    rw [hs] at h
    obtain ⟨hc, hrest⟩ := List.forall_mem_cons.mp h
    intro d hd
    rw [String.toList_ofList] at hd
    exact (List.mem_append.mp hd).elim (isBracket_lower hc d) (hrest d)

end Text

/-! ### The texts of a type -/

namespace TypeRef

mutual

/-- The names that a type is written with. An array is written as its elements, whatever its own name is. -/
def texts : TypeRef → List String
  | ⟨_, _, _, _, _, some element, _, _, _⟩ => texts element
  | ⟨_, space, name, declaring, args, none, _, _, _⟩ =>
    name :: space.toList ++ outerTexts declaring ++ textsAll args

/-- The names that enclosing types are written with. -/
def outerTexts : Option TypeRef → List String
  | none => []
  | some t => t.chain.flatMap (fun u => u.name :: u.nameSpace.toList) ++ texts t

def textsAll : List TypeRef → List String
  | [] => []
  | t :: ts => texts t ++ textsAll ts

end

theorem textsAll_eq (ts : List TypeRef) : textsAll ts = ts.flatMap texts := by
  induction ts with
  | nil => rfl
  | cons t ts ih => rw [textsAll, ih, List.flatMap_cons]

/-- The names of the types in a chain. -/
def chainTexts (ts : List TypeRef) : List String := ts.flatMap fun t => t.name :: t.nameSpace.toList

theorem chainTexts_cons (t : TypeRef) (ts : List TypeRef) :
    chainTexts (t :: ts) = (t.name :: t.nameSpace.toList) ++ chainTexts ts :=
  List.flatMap_cons

theorem chainTexts_subset {t : TypeRef} (helement : t.element = none) : chainTexts t.chain ⊆ t.texts := by
  obtain ⟨k, space, name, declaring, args, element, rank, anonymous, closure⟩ := t
  cases helement
  cases declaring with
  | none => simp [chain, chain.chainOption, chainTexts, texts]
  | some outer =>
    intro s hs
    simp only [chain, chain.chainOption, chainTexts, List.flatMap_append, List.flatMap_singleton,
      List.mem_append] at hs
    simp only [texts, outerTexts, List.mem_append]
    tauto

/-! ### Written names -/

theorem splitArity_subset (name : String) : (splitArity name).1.toList ⊆ name.toList := by
  unfold splitArity
  dsimp only
  split
  next first before arity hdropped _ =>
    intro c hc
    rw [String.toList_ofList, List.mem_reverse] at hc
    have hmem : c ∈ name.toList.reverse.drop _ := hdropped ▸ List.mem_cons_of_mem first hc
    exact List.mem_reverse.mp (List.mem_of_mem_drop hmem)
  · exact List.Subset.refl _

theorem isPlain_shortName {t : TypeRef} (h : IsPlain t.name) : IsPlain t.shortName :=
  h.of_subset (splitArity_subset t.name)

/-- The keywords of the built-in types. -/
def keywords : List String :=
  ["string", "int", "bool", "decimal", "long", "double", "object", "byte", "short", "float", "char", "uint",
    "ulong", "sbyte", "ushort", "void"]

theorem mem_keywords {t : TypeRef} {keyword : String} (h : t.keyword? = some keyword) : keyword ∈ keywords := by
  unfold keyword? at h
  split at h
  · cases h
  · obtain ⟨before, after, hentries, -⟩ := List.lookup_eq_some_iff.mp h
    have hmem : (t.name, keyword) ∈ before ++ (t.name, keyword) :: after := by simp
    rw [← hentries] at hmem
    exact List.mem_map_of_mem (f := Prod.snd) hmem

theorem isPlain_keyword {t : TypeRef} {keyword : String} (h : t.keyword? = some keyword) : IsPlain keyword := by
  have hall : ∀ keyword ∈ keywords, IsPlain keyword := by decide
  exact hall keyword (mem_keywords h)

/-- The brackets of an array are closed. -/
theorem nested_brackets (rank : Nat) : IsNested (brackets rank).toList := by
  have hcommas : IsNested (List.replicate (rank - 1) ',') :=
    .of_plain fun c hc => by rw [(List.mem_replicate.mp hc).2]; rfl
  have hpair : IsPair "[" "]" := ⟨']', rfl, rfl⟩
  have hbrackets := hcommas.enclosed hpair
  simpa [brackets] using hbrackets

/-- The brackets in each segment of a name are closed. -/
def Nested (segments : List Segment) : Prop := ∀ s ∈ segments, IsNested s.1.toList

theorem Nested.append {xs ys : List Segment} (hx : Nested xs) (hy : Nested ys) : Nested (xs ++ ys) :=
  List.forall_mem_append.mpr ⟨hx, hy⟩

theorem nested_singleton {s : Segment} (h : IsPlain s.1) : Nested [s] :=
  List.forall_mem_singleton.mpr h.nested

theorem nested_argumentList {names : List (List Segment)} (h : ∀ name ∈ names, Nested name) :
    Nested (argumentList names) := by
  have hnames : Nested ([plain ", "].intercalate names) :=
    intercalate_induction (P := Nested) (fun _ hs => nomatch hs) (fun _ _ => .append)
      (nested_singleton (by decide)) h
  exact ((nested_singleton (by decide)).append hnames).append (nested_singleton (by decide))

theorem nested_argumentsIf {names : List (List Segment)} (h : ∀ name ∈ names, Nested name) (written : Bool) :
    Nested (if written then argumentList names else []) := by
  cases written with
  | true => exact nested_argumentList h
  | false => exact fun _ hs => nomatch hs

theorem nested_namespaceSegments (o : TypeNameOptions) {t : TypeRef} (h : AllPlain t.nameSpace.toList) :
    Nested (namespaceSegments o t) := by
  unfold namespaceSegments
  split
  next space _ hspace =>
    have hplain : IsPlain space := h space (by rw [hspace]; exact List.mem_singleton_self space)
    exact nested_singleton (hplain.append (by decide))
  · exact fun _ hs => nomatch hs

theorem nested_chainSegments (o : TypeNameOptions) {names : List (List Segment)}
    (hnames : ∀ name ∈ names, Nested name) (first : Bool) (cursor : Nat) {ts : List TypeRef}
    (h : AllPlain (chainTexts ts)) : Nested (chainSegments o names first cursor ts) := by
  induction ts generalizing first cursor with
  | nil => exact fun _ hs => nomatch hs
  | cons t ts ih =>
    obtain ⟨ht, hts⟩ := allPlain_append.mp (chainTexts_cons t ts ▸ h)
    obtain ⟨hname, hspace⟩ := allPlain_cons.mp ht
    rw [chainSegments]
    refine .append (.append (.append ?_ (nested_singleton (isPlain_shortName hname))) ?_) (ih _ _ hts)
    · split
      · exact nested_namespaceSegments o hspace
      · exact nested_singleton (by decide)
    · split
      · exact nested_argumentList fun name hname =>
          hnames name (List.mem_of_mem_drop (List.mem_of_mem_take hname))
      · exact fun _ hs => nomatch hs

end TypeRef

/-- Anonymous types get names without brackets. -/
def TypeNameOptions.NamesPlainly (o : TypeNameOptions) : Prop :=
  ∀ namer ∈ o.anonymousNamer, ∀ t, IsPlain (namer t)

namespace TypeRef

variable {o : TypeNameOptions}

mutual

/-- **The brackets in a written name are closed** if the names in the type have none. -/
theorem nested_segments (ho : o.NamesPlainly) : (t : TypeRef) → AllPlain t.texts → Nested (segments o t)
  | ⟨_, _, _, _, _, some element, rank, _, _⟩, h => by
    rw [segments]
    refine .append ?_ (List.forall_mem_singleton.mpr (nested_brackets rank))
    split
    · exact fun _ hs => nomatch hs
    · exact nested_segments ho element h
  | ⟨k, space, name, declaring, args, none, rank, anonymous, closure⟩, h => by
    obtain ⟨hnames, hargs⟩ := allPlain_append.mp h
    obtain ⟨⟨hname, hspace⟩, hdeclaring⟩ := (allPlain_append.mp hnames).imp_left allPlain_cons.mp
    have hall := nested_segmentsAll ho args hargs
    rw [segments.eq_def]
    dsimp only
    split
    · exact nested_singleton hname
    · split
      · refine .append (fun s hs => ?_) (nested_singleton (by decide))
        obtain ⟨name, hmem, hs⟩ := List.mem_flatten.mp hs
        exact hall name hmem s hs
      · split
        · split
          next namer hnamer => exact nested_singleton (ho namer hnamer _)
          · refine .append (nested_singleton (s := ("AnonymousType", .typeName)) (by decide)) ?_
            exact nested_argumentsIf hall _
        · split
          next keyword hkeyword => exact nested_singleton (isPlain_keyword hkeyword)
          · split
            · exact nested_chainSegments o hall _ _ (AllPlain.mono h (chainTexts_subset rfl))
            · refine .append ?_ (nested_singleton (isPlain_shortName hname))
              cases declaring with
              | none => exact nested_namespaceSegments o hspace
              | some outer =>
                have houter := (allPlain_append.mp hdeclaring).2
                exact .append (nested_segments ho outer houter) (nested_singleton (by decide))

theorem nested_segmentsAll (ho : o.NamesPlainly) : (ts : List TypeRef) → AllPlain (textsAll ts) →
    ∀ name ∈ segmentsAll o ts, Nested name
  | [], _ => fun _ hname => nomatch hname
  | t :: ts, h => by
    obtain ⟨ht, hts⟩ := allPlain_append.mp h
    rw [segmentsAll]
    exact List.forall_mem_cons.mpr ⟨nested_segments ho t ht, nested_segmentsAll ho ts hts⟩

end

end TypeRef

@[grind ←] theorem Balanced.typeName {o : TypeNameOptions} (ho : o.NamesPlainly) {t : TypeRef}
    (h : AllPlain t.texts) : Balanced (Atoms.typeName o t) := by
  refine .append (.note _) (.of_forall fun a ha => ?_)
  obtain ⟨s, hs, rfl⟩ := List.mem_map.mp ha
  exact .of_text _ (TypeRef.nested_segments ho t h s hs)

/-! ### Names that describe types -/

namespace TypeRef

mutual

theorem isPlain_pascalName : (t : TypeRef) → AllPlain t.texts → IsPlain t.pascalName
  | ⟨_, _, _, _, _, some element, _, _, _⟩, h => by
    rw [pascalName]
    exact (isPlain_pascalName element h).append (by decide)
  | ⟨k, space, name, declaring, args, none, rank, anonymous, closure⟩, h => by
    obtain ⟨hnames, hargs⟩ := allPlain_append.mp h
    have hname : IsPlain name := (allPlain_cons.mp (allPlain_append.mp hnames).1).1
    have hall := isPlain_pascalNames args hargs
    have hlead : IsPlain "Nullable" := by decide
    rw [pascalName.eq_def]
    dsimp only
    split
    · exact hlead.append hall
    · split
      · decide
      · split
        next keyword hkeyword => exact Text.isPlain_capitalize (isPlain_keyword hkeyword)
        · split
          · exact Text.isPlain_capitalize hname
          · exact hall.append (Text.isPlain_capitalize (isPlain_shortName hname))

theorem isPlain_pascalNames : (ts : List TypeRef) → AllPlain (textsAll ts) → IsPlain (pascalNames ts)
  | [], _ => by decide
  | t :: ts, h => by
    obtain ⟨ht, hts⟩ := allPlain_append.mp h
    exact (isPlain_pascalName t ht).append (isPlain_pascalNames ts hts)

end

theorem isPlain_camelName {t : TypeRef} (h : AllPlain t.texts) : IsPlain t.camelName :=
  Text.isPlain_uncapitalize (isPlain_pascalName t h)

/-! ### Types put together from others -/

mutual

/-- Namespaces to import are among the names of a type. -/
theorem requiredNamespaces_subset : (t : TypeRef) → t.requiredNamespaces ⊆ t.texts
  | ⟨_, _, _, _, _, some element, _, _, _⟩ => by
    rw [requiredNamespaces, texts]
    exact requiredNamespaces_subset element
  | ⟨k, space, name, declaring, args, none, rank, anonymous, closure⟩ => by
    have hargs : requiredNamespacesAll args ⊆ texts ⟨k, space, name, declaring, args, none, rank, anonymous, closure⟩ :=
      fun s hs => List.mem_append_right _ (requiredNamespacesAll_subset args hs)
    rw [requiredNamespaces.eq_def]
    dsimp only
    split
    · exact hargs
    · split
      · exact List.nil_subset _
      · refine List.append_subset.mpr ⟨hargs, ?_⟩
        split
        · exact List.nil_subset _
        · intro s hs
          obtain ⟨u, hu, hs⟩ := Option.bind_eq_some_iff.mp (Option.mem_toList.mp hs)
          refine chainTexts_subset rfl (List.mem_flatMap.mpr ⟨u, List.mem_of_head? hu, ?_⟩)
          rw [hs]
          simp

theorem requiredNamespacesAll_subset : (ts : List TypeRef) → requiredNamespacesAll ts ⊆ textsAll ts
  | [] => List.nil_subset _
  | t :: ts => by
    rw [requiredNamespacesAll, textsAll]
    exact List.append_subset.mpr ⟨fun s hs => List.mem_append_left _ (requiredNamespaces_subset t hs),
      fun s hs => List.mem_append_right _ (requiredNamespacesAll_subset ts hs)⟩

end

variable {ps as : List TypeRef}

theorem mem_of_argumentFor? {t a : TypeRef} (h : argumentFor? ps as t = some a) : a ∈ as := by
  unfold argumentFor? at h
  split at h
  · exact List.mem_of_getElem? h
  · cases h

mutual

theorem allPlain_substitute (has : ∀ a ∈ as, AllPlain a.texts) : (t : TypeRef) → AllPlain t.texts →
    AllPlain (substitute ps as t).texts
  | ⟨_, _, _, _, _, some element, _, _, _⟩, h => by
    rw [substitute.eq_def]
    dsimp only
    split
    next a ha => exact has a (mem_of_argumentFor? ha)
    · split
      · exact allPlain_substitute has element h
      · exact h
  | ⟨k, space, name, declaring, args, none, rank, anonymous, closure⟩, h => by
    obtain ⟨hnames, hargs⟩ := allPlain_append.mp h
    rw [substitute.eq_def]
    dsimp only
    split
    next a ha => exact has a (mem_of_argumentFor? ha)
    · split
      · exact allPlain_append.mpr ⟨hnames, allPlain_substituteAll has args hargs⟩
      · exact h

theorem allPlain_substituteAll (has : ∀ a ∈ as, AllPlain a.texts) : (ts : List TypeRef) → AllPlain (textsAll ts) →
    AllPlain (textsAll (substituteAll ps as ts))
  | [], _ => allPlain_nil
  | t :: ts, h => by
    obtain ⟨ht, hts⟩ := allPlain_append.mp h
    exact allPlain_append.mpr ⟨allPlain_substitute has t ht, allPlain_substituteAll has ts hts⟩

end

end TypeRef

/-! ### Names of variables, labels and methods -/

theorem isPlain_writtenName {ty : TypeRef} {name : String} (hname : IsPlain name) (hty : AllPlain ty.texts) :
    IsPlain (writtenName ty name) := by
  have hgiven : IsPlain (if name.isEmpty then ty.camelName else name) := by
    split
    · exact TypeRef.isPlain_camelName hty
    · exact hname
  have hmarked (s : String) (hs : IsPlain s) : IsPlain (if isReserved s then "@" ++ s else s) := by
    have hmark : IsPlain "@" := by decide
    split
    · exact hmark.append hs
    · exact hs
  exact hmarked _ hgiven

theorem isPlain_defaultMethodName {returns : TypeRef} (h : AllPlain returns.texts) :
    IsPlain (defaultMethodName returns) := by
  have hlead : IsPlain "Get" := by decide
  unfold defaultMethodName
  split
  · decide
  · exact hlead.append (TypeRef.isPlain_pascalName returns h)

/-- A valid name consists of characters that are no brackets. -/
theorem isBracket_of_isNameChar {c : Char} (h : isNameChar c = true) : isBracket c = false :=
  isBracket_eq_false (by decide) h

end TreeScribe
