import TreeScribe.Proofs.Analysis.Meets
import TreeScribe.Proofs.Tree.Relabel
import TreeScribe.Proofs.Tree.StoredParts

/-! Trees are read from their text.

A node is kept by its stored form if its children are (`Form.stores`), so a tree is by induction
(`Node.stores_upTo`), and its text is read as that stored form. Numbers are taken to fit the words they are
kept in, and the texts of doubles to be read as those doubles. -/
namespace TreeScribe

open Json Number

/-! ### Parts without children -/

def Variable.fitsWords (v : Variable) : Bool := v.ty.fitsWords

/-- A variable is read from any object that has its fields. -/
theorem Variable.ofJson?_eq_some {v : Variable} (h : v.fitsWords = true) {j : Json}
    (hj : ∀ key, key ≠ "node" → j.member? key = some (v.fields.lookup key)) : ofJson? j = some v := by
  have hty := TypeRef.stores h
  simp [ofJson?, field?, defaulted?, hj, fields, List.lookup_cons, asString?, asBool?, hty.reads]

theorem Variable.nodup_keys (v : Variable) : (v.fields.map Prod.fst).Nodup := by
  show ["name", "ty", "is_by_ref"].Nodup
  decide

theorem Variable.numbers_fields {v : Variable} (h : v.fitsWords = true) :
    ∀ field ∈ v.fields, field.2.NumbersReadBack := by
  simpa [fields] using (TypeRef.stores h).numbers

theorem Variable.toJson_ne_null (v : Variable) : v.toJson ≠ .null := nofun

theorem Variable.stores {v : Variable} (h : v.fitsWords = true) : Stores ofJson? v.toJson v :=
  ⟨ofJson?_eq_some h fun key _ => member?_object v.nodup_keys key, NumbersReadBack.object_iff.mpr (numbers_fields h)⟩

theorem Variable.stores_list {vs : List Variable} (h : vs.all (·.fitsWords) = true) :
    Stores (list? ofJson?) (Json.ofList toJson vs) vs :=
  stores_list_self fun v hv => stores (List.all_eq_true.mp h v hv)

def Target.fitsWords (t : Target) : Bool := t.ty.fitsWords && decide (t.id < 2 ^ 32)

theorem Target.toJson_ne_null (t : Target) : t.toJson ≠ .null := nofun

theorem Target.stores {t : Target} (h : t.fitsWords = true) : Stores ofJson? t.toJson t := by
  simp only [fitsWords, Bool.and_eq_true, decide_eq_true_eq] at h
  have hty := TypeRef.stores h.1
  have hname := stores_string_option t.name
  have hid : (Numeral.whole t.id).ReadsBack := Numeral.readsBack_whole (by omega) (by omega)
  have hread : asNatBelow? 4294967296 (Json.ofNat t.id) = some t.id := asNatBelow?_ofNat (by omega)
  constructor
  · simp [ofJson?, toJson, field?, defaulted?, optional?_eq, member?, hname.reads, hty.reads,
      hread]
  · simp [toJson, hname.numbers, hty.numbers, Json.ofNat, hid]

theorem Target.stores_option {o : Option Target} (h : o.all (·.fitsWords) = true) :
    Stores (nullable? ofJson?) (Json.ofOption toJson o) o :=
  stores_option_self toJson_ne_null fun t ht => stores (Option.all_eq_true _ _ |>.mp h t ht)

variable {α β ι : Type}

/-! ### Parts with children -/

section Parts

variable {write : α → Json} {read : Json → Option β} {g : α → β}

def Creation.fitsWords (n : Creation α) : Bool := n.ty.fitsWords && n.constructor.all (·.fitsWords)

/-- An object creation is read from any object that has its fields, whose numbers are read. -/
theorem Creation.ofJson?_eq_some {n : Creation α} (h : n.fitsWords = true)
    (hchildren : ∀ c ∈ n.arguments, Stores read (write c) (g c)) {j : Json}
    (hj : ∀ key, key ≠ "node" → j.member? key = some ((n.fields write).lookup key)) :
    ofJson? read j = some (n.map g) ∧ ∀ field ∈ n.fields write, field.2.NumbersReadBack := by
  simp only [fitsWords, Bool.and_eq_true, Option.all_eq_true] at h
  have hty := TypeRef.stores h.1
  have hconstructor := stores_option_self ConstructorInfo.toJson_ne_null fun c hc =>
    ConstructorInfo.stores (h.2 c hc)
  have harguments := stores_list hchildren
  have hmembers := stores_list_self fun s (_ : s ∈ n.members) => stores_string s
  constructor
  · simp [ofJson?, field?, defaulted?, optional?_eq, hj, fields, List.lookup_cons, hty.reads,
      hconstructor.reads, harguments.reads, hmembers.reads, map]
  · simp [fields, hty.numbers, hconstructor.numbers, harguments.numbers, hmembers.numbers]

theorem Creation.nodup_keys (n : Creation α) : ((n.fields write).map Prod.fst).Nodup := by
  show ["ty", "constructor", "arguments", "members"].Nodup
  decide

theorem Creation.stores {n : Creation α} (h : n.fitsWords = true)
    (hchildren : ∀ c ∈ n.arguments, Stores read (write c) (g c)) :
    Stores (ofJson? read) (.object (n.fields write)) (n.map g) := by
  obtain ⟨hreads, hnumbers⟩ := ofJson?_eq_some (j := .object (n.fields write)) h hchildren fun key _ =>
    member?_object n.nodup_keys key
  exact ⟨hreads, NumbersReadBack.object_iff.mpr hnumbers⟩

def ElementInit.fitsWords (i : ElementInit α) : Bool := i.addMethod.fitsWords

theorem ElementInit.stores {i : ElementInit α} (h : i.fitsWords = true)
    (hchildren : ∀ c ∈ i.arguments, Stores read (write c) (g c)) :
    Stores (ofJson? read) (i.toJson write) (i.map g) := by
  have hmethod := MethodInfo.stores h
  have harguments := stores_list hchildren
  constructor
  · simp [ofJson?, toJson, field?, member?, hmethod.reads, harguments.reads, map]
  · simp [toJson, hmethod.numbers, harguments.numbers]

theorem ElementInit.stores_list {items : List (ElementInit α)} (h : ∀ i ∈ items, i.fitsWords = true)
    (hchildren : ∀ c ∈ items.flatMap (·.arguments), Stores read (write c) (g c)) :
    Stores (list? (ofJson? read)) (Json.ofList (toJson write) items) (items.map (·.map g)) :=
  Json.stores_list fun i hi => stores (h i hi) fun c hc => hchildren c (List.mem_flatMap.mpr ⟨i, hi, hc⟩)

namespace Binding

mutual

def fitsWords : Binding α → Bool
  | .assignment m _ => m.fitsWords
  | .nested m bindings => m.fitsWords && allFitWords bindings
  | .list m items => m.fitsWords && items.all (·.fitsWords)

def allFitWords : List (Binding α) → Bool
  | [] => true
  | b :: bs => fitsWords b && allFitWords bs

end

theorem allFitWords_iff {bs : List (Binding α)} : allFitWords bs = true ↔ ∀ b ∈ bs, b.fitsWords = true := by
  induction bs with
  | nil => simp [allFitWords]
  | cons b bs ih => simp [allFitWords, ih]

theorem allToJson_eq (bs : List (Binding α)) :
    Json.array (allToJson write bs) = Json.ofList (toJson write) bs := by
  refine congrArg Json.array ?_
  induction bs with
  | nil => rfl
  | cons b bs ih => rw [allToJson, ih, List.map_cons]

theorem mapAll_eq (g : α → β) (bs : List (Binding α)) : mapAll g bs = bs.map (Binding.map g) := by
  induction bs with
  | nil => rfl
  | cons b bs ih => rw [mapAll, ih, List.map_cons]

theorem children_subset {bs : List (Binding α)} {b : Binding α} (h : b ∈ bs) : b.children ⊆ childrenAll bs := by
  induction bs with
  | nil => cases h
  | cons first bs ih =>
    rcases List.mem_cons.mp h with rfl | h
    · exact List.subset_append_left ..
    · exact fun c hc => List.mem_append_right _ (ih h hc)

/-- A binding is kept by its stored form, given fuel for the depth of that. -/
theorem stores_upTo (fuel : Nat) : ∀ b : Binding α, b.fitsWords = true →
    (∀ c ∈ b.children, Stores read (write c) (g c)) → (b.toJson write).depth ≤ fuel →
    Stores (ofJsonUpTo? read fuel) (b.toJson write) (b.map g) := by
  induction fuel with
  | zero =>
    intro b _ _ hdepth
    cases b <;> cases hdepth
  | succ fuel ih =>
    intro b hwords hchildren hdepth
    cases b with
    | assignment m value =>
      have hmember := MemberInfo.stores hwords
      have hvalue := hchildren value (List.mem_singleton_self value)
      constructor
      · simp [ofJsonUpTo?, toJson, field?, member?, asString?, hmember.reads, hvalue.reads, map]
      · simp [toJson, hmember.numbers, hvalue.numbers]
    | nested m bindings =>
      simp only [fitsWords, Bool.and_eq_true, allFitWords_iff] at hwords
      have hmember := MemberInfo.stores hwords.1
      rw [toJson, allToJson_eq] at hdepth ⊢
      simp only [depth, depthFields] at hdepth
      have hbindings := Json.stores_list fun b hb =>
        ih b (hwords.2 b hb) (fun c hc => hchildren c (children_subset hb hc))
          (by have := depth_lt_ofList (toJson write) hb; omega)
      constructor
      · simp [ofJsonUpTo?, field?, member?, asString?, hmember.reads, hbindings.reads, map,
          mapAll_eq]
      · simp [hmember.numbers, hbindings.numbers]
    | list m items =>
      simp only [fitsWords, Bool.and_eq_true, List.all_eq_true] at hwords
      have hmember := MemberInfo.stores hwords.1
      have hitems := ElementInit.stores_list hwords.2 hchildren
      constructor
      · simp [ofJsonUpTo?, toJson, field?, member?, asString?, hmember.reads, hitems.reads, map]
      · simp [toJson, hmember.numbers, hitems.numbers]

theorem stores_list {bs : List (Binding α)} (hwords : ∀ b ∈ bs, b.fitsWords = true)
    (hchildren : ∀ c ∈ childrenAll bs, Stores read (write c) (g c)) :
    Stores (list? (ofJson? read)) (Json.ofList (toJson write) bs) (mapAll g bs) := by
  rw [mapAll_eq]
  refine Json.stores_list fun b hb => ?_
  have hb := stores_upTo _ b (hwords b hb) (fun c hc => hchildren c (children_subset hb hc)) (Nat.le_refl _)
  exact ⟨hb.reads, hb.numbers⟩

end Binding

theorem SwitchCase.stores {c : SwitchCase α}
    (hchildren : ∀ x ∈ c.tests ++ [c.body], Stores read (write x) (g x)) :
    Stores (ofJson? read) (c.toJson write) (c.map g) := by
  have htests := stores_list fun x hx => hchildren x (List.mem_append_left _ hx)
  have hbody := hchildren c.body (List.mem_append_right _ (List.mem_singleton_self _))
  constructor
  · simp [ofJson?, toJson, field?, member?, htests.reads, hbody.reads, map]
  · simp [toJson, htests.numbers, hbody.numbers]

def Handler.fitsWords (h : Handler α) : Bool := h.test.fitsWords && h.caught.all (·.fitsWords)

theorem Handler.stores {h : Handler α} (hwords : h.fitsWords = true) (hnull : ∀ a, write a ≠ .null)
    (hchildren : ∀ c ∈ h.filter.toList ++ [h.body], Stores read (write c) (g c)) :
    Stores (ofJson? read) (h.toJson write) (h.map g) := by
  simp only [fitsWords, Bool.and_eq_true, Option.all_eq_true] at hwords
  have htest := TypeRef.stores hwords.1
  have hcaught := stores_option_self Variable.toJson_ne_null fun v hv => Variable.stores (hwords.2 v hv)
  have hfilter := stores_option hnull fun c hc =>
    hchildren c (List.mem_append_left _ (Option.mem_toList.mpr hc))
  have hbody := hchildren h.body (List.mem_append_right _ (List.mem_singleton_self _))
  constructor
  · simp [ofJson?, toJson, field?, optional?_eq, member?, htest.reads, hcaught.reads,
      hfilter.reads, hbody.reads, map]
  · simp [toJson, htest.numbers, hcaught.numbers, hfilter.numbers, hbody.numbers]

/-! ### Nodes -/

namespace Form

/-- The whole numbers in a node itself fit the words they are kept in: ranks of arrays, ids of targets and
values of constants. -/
def fitsWords : Form α → Bool
  | .constant c => c.value.fitsWords && c.ty.fitsWords
  | .parameter v => v.fitsWords
  | .binary _ _ _ ty method | .unary _ _ ty method => ty.fitsWords && method.all (·.fitsWords)
  | .conditional _ _ _ ty | .invoke _ _ ty | .switch _ _ _ ty | .default ty | .extension _ ty _ _ =>
    ty.fitsWords
  | .block locals _ ty => locals.all (·.fitsWords) && ty.fitsWords
  | .lambda _ parameters _ returnType ty =>
    parameters.all (·.fitsWords) && returnType.fitsWords && ty.fitsWords
  | .call _ method _ => method.fitsWords
  | .member _ info => info.fitsWords
  | .new creation => creation.fitsWords
  | .newArray elementType _ _ => elementType.fitsWords
  | .memberInit creation bindings => creation.fitsWords && Binding.allFitWords bindings
  | .listInit creation items => creation.fitsWords && items.all (·.fitsWords)
  | .loop _ breakTarget continueTarget => breakTarget.all (·.fitsWords) && continueTarget.all (·.fitsWords)
  | .jump _ target _ ty => target.fitsWords && ty.fitsWords
  | .label target _ => target.fitsWords
  | .try _ handlers _ _ ty => handlers.all (·.fitsWords) && ty.fitsWords
  | .index _ indexer _ ty => indexer.all (·.fitsWords) && ty.fitsWords
  | .typeTest _ operand _ => operand.fitsWords
  | .comment _ => true

/-- The doubles in a node itself. -/
def floats : Form α → List Binary64
  | .constant c => c.value.floats
  | _ => []

section Fields

variable (write : α → Json) (f : Form α) {γ : Type}

/-- No field of a node stands twice. -/
theorem nodup_keys (tag : Json) : ((("node", tag) :: f.fields write).map Prod.fst).Nodup := by
  cases f <;> simp [fields, Variable.fields, Creation.fields]

theorem member?_toJson {key : String} (h : key ≠ "node") :
    (f.toJson write).member? key = some ((f.fields write).lookup key) := by
  rw [toJson, member?_object (nodup_keys write f _), List.lookup_cons, beq_eq_false_iff_ne.mpr h]

@[simp] theorem field?_node : field? (f.toJson write) "node" asString? = some f.storedName := by
  rw [field?, toJson, member?_object (nodup_keys write f _), List.lookup_cons_self]
  rfl

@[simp] theorem field?_toJson {key : String} (h : key ≠ "node") (read : Json → Option γ) :
    field? (f.toJson write) key read = ((f.fields write).lookup key).bind read := by
  rw [field?, member?_toJson write f h, Option.join_some]

@[simp] theorem defaulted?_toJson {key : String} (h : key ≠ "node") (default : γ) (read : Json → Option γ) :
    defaulted? (f.toJson write) key default read =
      (((f.fields write).lookup key).map read).getD (some default) := by
  rw [defaulted?, member?_toJson write f h]
  cases (f.fields write).lookup key <;> rfl

@[simp] theorem optional?_toJson {key : String} (h : key ≠ "node") (read : Json → Option γ) :
    optional? (f.toJson write) key read =
      (((f.fields write).lookup key).map (nullable? read)).getD (some none) := by
  rw [optional?_eq, member?_toJson write f h, Option.bind_some]
  cases (f.fields write).lookup key <;> rfl

end Fields

/-- **A node is kept by its stored form** if its children are. -/
theorem stores {f : Form α} (hwords : f.fitsWords = true)
    (hfloats : ∀ x ∈ f.floats, (Numeral.real x).ReadsBack) (hnull : ∀ a, write a ≠ .null)
    (hchildren : ∀ c ∈ f.children, Stores read (write c) (g c)) :
    Stores (ofJson? read) (f.toJson write) (f.map g) := by
  have hlist {l : List α} (hl : l ⊆ f.children) : Stores (list? read) (Json.ofList write l) (l.map g) :=
    stores_list fun c hc => hchildren c (hl hc)
  have hoption {o : Option α} (ho : o.toList ⊆ f.children) :
      Stores (nullable? read) (Json.ofOption write o) (o.map g) :=
    stores_option hnull fun c hc => hchildren c (ho (Option.mem_toList.mpr hc))
  suffices h : ofJson? read (f.toJson write) = some (f.map g) ∧
      ∀ field ∈ f.fields write, field.2.NumbersReadBack by
    exact ⟨h.1, by simpa [toJson] using h.2⟩
  -- The tag tells the form, so that what is left to read are the fields of that form.
  rw [ofJson?, field?_node, Option.bind_eq_bind, Option.bind_some]
  cases f with
  | constant c =>
    obtain ⟨hvalue, hty⟩ := Bool.and_eq_true_iff.mp hwords
    have hvalue := ConstantValue.stores hvalue hfloats
    have hty := TypeRef.stores hty
    refine ⟨by simp [storedName, fields, List.lookup_cons, hvalue.reads, hty.reads, map], ?_⟩
    simp [fields, hvalue.numbers, hty.numbers]
  | parameter v =>
    have hv := Variable.ofJson?_eq_some hwords fun _ hkey => member?_toJson write (parameter v) hkey
    exact ⟨by simp [storedName, hv, map], Variable.numbers_fields hwords⟩
  | binary op left right ty method =>
    obtain ⟨hty, hm⟩ := Bool.and_eq_true_iff.mp hwords
    have hty := TypeRef.stores hty
    have hm := MethodInfo.stores_option hm
    have hleft := hchildren left (by simp [children])
    have hright := hchildren right (by simp [children])
    refine ⟨by simp [storedName, fields, List.lookup_cons, BinaryOp.oneOf?_snakeCase, hleft.reads, hright.reads,
      hty.reads, hm.reads, map], ?_⟩
    simp [fields, hleft.numbers, hright.numbers, hty.numbers, hm.numbers]
  | unary op operand ty method =>
    obtain ⟨hty, hm⟩ := Bool.and_eq_true_iff.mp hwords
    have hty := TypeRef.stores hty
    have hm := MethodInfo.stores_option hm
    have hoperand := hoption (List.Subset.refl operand.toList)
    refine ⟨by simp [storedName, fields, List.lookup_cons, UnaryOp.oneOf?_snakeCase, hoperand.reads, hty.reads,
      hm.reads, map], ?_⟩
    simp [fields, hoperand.numbers, hty.numbers, hm.numbers]
  | conditional test ifTrue ifFalse ty =>
    have hty := TypeRef.stores hwords
    have htest := hchildren test (by simp [children])
    have htrue := hchildren ifTrue (by simp [children])
    have hfalse := hchildren ifFalse (by simp [children])
    refine ⟨by simp [storedName, fields, List.lookup_cons, htest.reads, htrue.reads, hfalse.reads, hty.reads,
      map], ?_⟩
    simp [fields, htest.numbers, htrue.numbers, hfalse.numbers, hty.numbers]
  | block locals expressions ty =>
    obtain ⟨hlocals, hty⟩ := Bool.and_eq_true_iff.mp hwords
    have hlocals := Variable.stores_list hlocals
    have hty := TypeRef.stores hty
    have hexpressions := hlist (List.Subset.refl expressions)
    refine ⟨by simp [storedName, fields, List.lookup_cons, hlocals.reads, hexpressions.reads, hty.reads,
      map], ?_⟩
    simp [fields, hlocals.numbers, hexpressions.numbers, hty.numbers]
  | lambda name parameters body returnType ty =>
    simp only [fitsWords, Bool.and_eq_true] at hwords
    have hname := stores_string_option name
    have hparameters := Variable.stores_list hwords.1.1
    have hreturn := TypeRef.stores hwords.1.2
    have hty := TypeRef.stores hwords.2
    have hbody := hchildren body (by simp [children])
    refine ⟨by simp [storedName, fields, List.lookup_cons, hname.reads, hparameters.reads, hbody.reads,
      hreturn.reads, hty.reads, map], ?_⟩
    simp [fields, hname.numbers, hparameters.numbers, hbody.numbers, hreturn.numbers, hty.numbers]
  | call receiver method arguments =>
    have hreceiver := hoption (List.subset_append_left receiver.toList arguments)
    have harguments := hlist (List.subset_append_right receiver.toList arguments)
    have hm := MethodInfo.stores hwords
    refine ⟨by simp [storedName, fields, List.lookup_cons, hreceiver.reads, hm.reads, harguments.reads,
      map], ?_⟩
    simp [fields, hreceiver.numbers, hm.numbers, harguments.numbers]
  | invoke target arguments ty =>
    have hty := TypeRef.stores hwords
    have hcallee := hchildren target (by simp [children])
    have harguments := hlist (List.subset_cons_self target arguments)
    refine ⟨by simp [storedName, fields, List.lookup_cons, hcallee.reads, harguments.reads, hty.reads,
      map], ?_⟩
    simp [fields, hcallee.numbers, harguments.numbers, hty.numbers]
  | member receiver info =>
    have hreceiver := hoption (List.Subset.refl receiver.toList)
    have hinfo := MemberInfo.stores hwords
    refine ⟨by simp [storedName, fields, List.lookup_cons, hreceiver.reads, hinfo.reads, map], ?_⟩
    simp [fields, hreceiver.numbers, hinfo.numbers]
  | new creation =>
    obtain ⟨hreads, hfields⟩ := Creation.ofJson?_eq_some hwords hchildren fun _ hkey =>
      member?_toJson write (new creation) hkey
    exact ⟨by simp [storedName, hreads, map], hfields⟩
  | newArray elementType expressions bounds =>
    have hty := TypeRef.stores hwords
    have hexpressions := hlist (List.Subset.refl expressions)
    refine ⟨by simp [storedName, fields, List.lookup_cons, asBool?, hty.reads, hexpressions.reads, map], ?_⟩
    simp [fields, hty.numbers, hexpressions.numbers]
  | memberInit creation bindings =>
    obtain ⟨hcreation, hbindings⟩ := Bool.and_eq_true_iff.mp hwords
    have hcreation := Creation.stores hcreation fun c hc => hchildren c (List.mem_append_left _ hc)
    have hbindings := Binding.stores_list (Binding.allFitWords_iff.mp hbindings) fun c hc =>
      hchildren c (List.mem_append_right _ hc)
    refine ⟨by simp [storedName, fields, List.lookup_cons, Binding.allToJson_eq, hcreation.reads,
      hbindings.reads, map], ?_⟩
    simp [fields, Binding.allToJson_eq, hcreation.numbers, hbindings.numbers]
  | listInit creation items =>
    obtain ⟨hcreation, hitems⟩ := Bool.and_eq_true_iff.mp hwords
    have hcreation := Creation.stores hcreation fun c hc => hchildren c (List.mem_append_left _ hc)
    have hitems := ElementInit.stores_list (List.all_eq_true.mp hitems) fun c hc =>
      hchildren c (List.mem_append_right _ hc)
    refine ⟨by simp [storedName, fields, List.lookup_cons, hcreation.reads, hitems.reads, map], ?_⟩
    simp [fields, hcreation.numbers, hitems.numbers]
  | loop body breakTarget continueTarget =>
    obtain ⟨hbreak, hcontinue⟩ := Bool.and_eq_true_iff.mp hwords
    have hbreak := Target.stores_option hbreak
    have hcontinue := Target.stores_option hcontinue
    have hbody := hchildren body (by simp [children])
    refine ⟨by simp [storedName, fields, List.lookup_cons, hbody.reads, hbreak.reads, hcontinue.reads,
      map], ?_⟩
    simp [fields, hbody.numbers, hbreak.numbers, hcontinue.numbers]
  | jump kind target value ty =>
    obtain ⟨hto, hty⟩ := Bool.and_eq_true_iff.mp hwords
    have hto := Target.stores hto
    have hty := TypeRef.stores hty
    have hvalue := hoption (List.Subset.refl value.toList)
    refine ⟨by simp [storedName, fields, List.lookup_cons, JumpKind.oneOf?_storedName, hto.reads, hvalue.reads,
      hty.reads, map], ?_⟩
    simp [fields, hto.numbers, hvalue.numbers, hty.numbers]
  | label target value =>
    have hto := Target.stores hwords
    have hvalue := hoption (List.Subset.refl value.toList)
    refine ⟨by simp [storedName, fields, List.lookup_cons, hto.reads, hvalue.reads, map], ?_⟩
    simp [fields, hto.numbers, hvalue.numbers]
  | switch value cases defaultBody ty =>
    have hty := TypeRef.stores hwords
    have hvalue := hchildren value (by simp [children])
    have hcases := stores_list fun (k : SwitchCase α) (hk : k ∈ cases) =>
      SwitchCase.stores fun c hc => hchildren c (mem_children_case hk hc)
    have hdefault := hoption (List.subset_append_right _ defaultBody.toList)
    refine ⟨by simp [storedName, fields, List.lookup_cons, hvalue.reads, hcases.reads, hdefault.reads,
      hty.reads, map], ?_⟩
    simp [fields, hvalue.numbers, hcases.numbers, hdefault.numbers, hty.numbers]
  | «try» body handlers cleanup fault ty =>
    obtain ⟨hhandlers, hty⟩ := Bool.and_eq_true_iff.mp hwords
    have hty := TypeRef.stores hty
    have hbody := hchildren body (by simp [children])
    have hhandlers := stores_list fun h hh =>
      Handler.stores (List.all_eq_true.mp hhandlers h hh) hnull fun c hc =>
        hchildren c (mem_children_handler hh hc)
    have hcleanup := hoption fun c (hc : c ∈ cleanup.toList) =>
      List.mem_append_left _ (List.mem_append_right _ hc)
    have hfault := hoption (List.subset_append_right _ fault.toList)
    refine ⟨by simp [storedName, fields, List.lookup_cons, hbody.reads, hhandlers.reads, hcleanup.reads,
      hfault.reads, hty.reads, map], ?_⟩
    simp [fields, hbody.numbers, hhandlers.numbers, hcleanup.numbers, hfault.numbers, hty.numbers]
  | default ty =>
    have hty := TypeRef.stores hwords
    refine ⟨by simp [storedName, fields, hty.reads, map], ?_⟩
    simp [fields, hty.numbers]
  | index subject indexer arguments ty =>
    obtain ⟨hindexer, hty⟩ := Bool.and_eq_true_iff.mp hwords
    have hty := TypeRef.stores hty
    have hindexer := MemberInfo.stores_option hindexer
    have hsubject := hchildren subject (by simp [children])
    have harguments := hlist (List.subset_cons_self subject arguments)
    refine ⟨by simp [storedName, fields, List.lookup_cons, hsubject.reads, hindexer.reads, harguments.reads,
      hty.reads, map], ?_⟩
    simp [fields, hsubject.numbers, hindexer.numbers, harguments.numbers, hty.numbers]
  | typeTest expression operand exact =>
    have hty := TypeRef.stores hwords
    have hexpression := hchildren expression (by simp [children])
    refine ⟨by simp [storedName, fields, List.lookup_cons, asBool?, hexpression.reads, hty.reads, map], ?_⟩
    simp [fields, hexpression.numbers, hty.numbers]
  | comment text =>
    refine ⟨by simp [storedName, fields, asString?, map], ?_⟩
    simp [fields]
  | extension name ty display operands =>
    have hty := TypeRef.stores hwords
    have hdisplay := stores_string_option display
    have hoperands := hlist (List.Subset.refl operands)
    refine ⟨by simp [storedName, fields, List.lookup_cons, asString?, hty.reads, hdisplay.reads,
      hoperands.reads, map], ?_⟩
    simp [fields, hty.numbers, hdisplay.numbers, hoperands.numbers]

end Form

end Parts

/-! ### Depth -/

section Depth

variable (write : α → Json) {c : α}

theorem Json.depth_le_ofOption {o : Option α} (h : c ∈ o.toList) : (write c).depth ≤ (ofOption write o).depth :=
  Nat.le_of_eq (depth_ofOption write (Option.mem_toList.mp h)).symm

theorem Creation.depth_lt {n : Creation α} (h : c ∈ n.arguments) :
    (write c).depth < depthFields (n.fields write) := by
  have hlist := depth_lt_ofList write h
  simp only [fields, depthFields]
  omega

theorem ElementInit.depth_lt {items : List (ElementInit α)} (h : c ∈ items.flatMap (·.arguments)) :
    (write c).depth < (Json.ofList (toJson write) items).depth := by
  obtain ⟨i, hi, hc⟩ := List.mem_flatMap.mp h
  have hlist := depth_lt_ofList write hc
  have hi := depth_lt_ofList (toJson write) hi
  simp only [toJson, depth, depthFields] at hi
  omega

mutual

theorem Binding.depth_lt : (b : Binding α) → c ∈ b.children → (write c).depth < (b.toJson write).depth
  | .assignment m value, h => by
    obtain rfl := List.mem_singleton.mp h
    simp only [toJson, depth, depthFields]
    omega
  | .nested m bindings, h => by
    have hall := Binding.depth_lt_all bindings h
    simp only [toJson, depth, depthFields]
    omega
  | .list m items, h => by
    have hlist := ElementInit.depth_lt write h
    simp only [toJson, depth, depthFields]
    omega

theorem Binding.depth_lt_all :
    (bs : List (Binding α)) → c ∈ childrenAll bs → (write c).depth < depthList (allToJson write bs)
  | [], h => nomatch h
  | b :: bs, h => by
    rw [allToJson, depthList]
    rcases List.mem_append.mp h with h | h
    · exact Nat.lt_of_lt_of_le (Binding.depth_lt b h) (Nat.le_max_left ..)
    · exact Nat.lt_of_lt_of_le (Binding.depth_lt_all bs h) (Nat.le_max_right ..)

end

theorem SwitchCase.depth_lt {cases : List (SwitchCase α)} (h : c ∈ cases.flatMap fun k => k.tests ++ [k.body]) :
    (write c).depth < (Json.ofList (toJson write) cases).depth := by
  obtain ⟨k, hk, hc⟩ := List.mem_flatMap.mp h
  have hk := depth_lt_ofList (toJson write) hk
  simp only [toJson, depth, depthFields] at hk
  rcases List.mem_append.mp hc with hc | hc
  · have hlist := depth_lt_ofList write hc
    omega
  · obtain rfl := List.mem_singleton.mp hc
    omega

theorem Handler.depth_lt {handlers : List (Handler α)}
    (h : c ∈ handlers.flatMap fun k => k.filter.toList ++ [k.body]) :
    (write c).depth < (Json.ofList (toJson write) handlers).depth := by
  obtain ⟨k, hk, hc⟩ := List.mem_flatMap.mp h
  have hk := depth_lt_ofList (toJson write) hk
  simp only [toJson, depth, depthFields] at hk
  rcases List.mem_append.mp hc with hc | hc
  · have hoption := depth_le_ofOption write hc
    omega
  · obtain rfl := List.mem_singleton.mp hc
    omega

/-- The stored form of a child is less deep than that of its node. -/
theorem Form.depth_lt {f : Form α} (h : c ∈ f.children) : (write c).depth < (f.toJson write).depth := by
  have hlist {l : List α} (h : c ∈ l) := depth_lt_ofList write h
  have hoption {o : Option α} (h : c ∈ o.toList) := depth_le_ofOption write h
  -- the goal is that one of the fields is as deep as the child
  cases f <;>
    simp only [toJson, fields, depth, depthFields, Nat.lt_add_one_iff, le_max_iff, children, List.mem_append,
      List.mem_cons, List.not_mem_nil, or_false] at h ⊢
  case lambda | loop | typeTest =>
    subst h
    omega
  case binary => rcases h with rfl | rfl <;> omega
  case conditional => rcases h with rfl | rfl | rfl <;> omega
  case unary | member | jump | label =>
    have := hoption h
    omega
  case block | newArray | extension =>
    have := hlist h
    omega
  case invoke | index =>
    rcases h with rfl | h
    · omega
    · have := hlist h
      omega
  case call =>
    rcases h with h | h
    · have := hoption h
      omega
    · have := hlist h
      omega
  case new =>
    have := Creation.depth_lt write h
    omega
  case memberInit =>
    rcases h with h | h
    · have := Creation.depth_lt write h
      omega
    · have := Binding.depth_lt_all write _ h
      omega
  case listInit =>
    rcases h with h | h
    · have := Creation.depth_lt write h
      omega
    · have := ElementInit.depth_lt write h
      omega
  case switch =>
    rcases h with (rfl | h) | h
    · omega
    · have := SwitchCase.depth_lt write h
      omega
    · have := hoption h
      omega
  case «try» =>
    rcases h with ((rfl | h) | h) | h
    · omega
    · have := Handler.depth_lt write h
      omega
    · have := hoption h
      omega
    · have := hoption h
      omega

end Depth

/-! ### Stored children -/

section Map

variable (w : α → Json)

@[simp] theorem Json.ofList_map {γ : Type} (f : β → Json) (g : γ → β) (l : List γ) :
    ofList f (l.map g) = ofList (f ∘ g) l := by
  simp [ofList]

@[simp] theorem Json.ofOption_map {γ : Type} (f : β → Json) (g : γ → β) (o : Option γ) :
    ofOption f (o.map g) = ofOption (f ∘ g) o := by
  cases o <;> rfl

theorem Creation.fields_map (n : Creation α) : (n.map w).fields id = n.fields w := by
  simp [fields, map]

theorem ElementInit.toJson_map : toJson id ∘ ElementInit.map w = toJson w := by
  funext i
  simp [toJson, map]

mutual

theorem Binding.toJson_map : (b : Binding α) → (Binding.map w b).toJson id = b.toJson w
  | .assignment _ _ => rfl
  | .nested _ bs => by rw [map, toJson, toJson, Binding.allToJson_map bs]
  | .list _ items => by rw [map, toJson, toJson, ofList_map, ElementInit.toJson_map]

theorem Binding.allToJson_map : (bs : List (Binding α)) → allToJson id (mapAll w bs) = allToJson w bs
  | [] => rfl
  | b :: bs => by rw [mapAll, allToJson, allToJson, Binding.toJson_map b, Binding.allToJson_map bs]

end

theorem SwitchCase.toJson_map : toJson id ∘ SwitchCase.map w = toJson w := by
  funext c
  simp [toJson, map]

theorem Handler.toJson_map : toJson id ∘ Handler.map w = toJson w := by
  funext h
  simp [toJson, map]

/-- Children may be stored before their node is. -/
theorem Form.toJson_map (f : Form α) : (f.map w).toJson id = f.toJson w := by
  cases f <;>
    simp [map, toJson, storedName, fields, Creation.fields_map, ElementInit.toJson_map, Binding.allToJson_map,
      SwitchCase.toJson_map, Handler.toJson_map]

end Map

/-! ### Trees -/

namespace Node

/-- The whole numbers in a tree fit the words they are kept in. -/
def fitsWords (n : Node ι) : Bool := n.nodes.all (·.form.fitsWords)

/-- The doubles in the constants of a tree. -/
def floats (n : Node ι) : List Binary64 := n.nodes.flatMap (·.form.floats)

theorem fitsWords_mk {l : ι} {f : Form (Node ι)} (h : (mk l f).fitsWords = true) :
    f.fitsWords = true ∧ ∀ c ∈ f.children, c.fitsWords = true := by
  simp only [fitsWords, nodes_mk, List.all_cons, Bool.and_eq_true, List.all_flatMap, List.all_eq_true] at h
  exact ⟨h.1, fun c hc => List.all_eq_true.mpr (h.2 c hc)⟩

theorem floats_subset {n x : Node ι} (h : x ∈ n.nodes) : x.floats ⊆ n.floats := by
  intro v hv
  obtain ⟨y, hy, hv⟩ := List.mem_flatMap.mp hv
  exact List.mem_flatMap.mpr ⟨y, mem_nodes_trans hy h, hv⟩

theorem toJson_mk (l : ι) (f : Form (Node ι)) : (mk l f).toJson = f.toJson toJson := by
  rw [toJson, fold, para_mk, Form.map_map]
  exact Form.toJson_map _ f

theorem erase_mk (l : ι) (f : Form (Node ι)) : (mk l f).erase = .mk () (f.map erase) := by
  rw [erase_eq_relabel, relabel_mk]
  rfl

theorem toJson_ne_null (n : Node ι) : n.toJson ≠ .null := by
  obtain ⟨l, f⟩ := n
  rw [toJson_mk]
  nofun

/-- A tree is kept by its stored form, given fuel for the depth of that. -/
theorem stores_upTo (n : Node ι) : ∀ fuel, n.fitsWords = true →
    (∀ x ∈ n.floats, (Numeral.real x).ReadsBack) → n.toJson.depth ≤ fuel →
    Json.Stores (Tree.ofJsonUpTo? fuel) n.toJson n.erase := by
  induction n using Node.induction with
  | h l f ih =>
    intro fuel hwords hfloats hdepth
    obtain ⟨hnode, hchildren⟩ := fitsWords_mk hwords
    rw [toJson_mk] at hdepth ⊢
    cases fuel with
    | zero => cases hdepth
    | succ fuel =>
      have hform : Json.Stores (Form.ofJson? (Tree.ofJsonUpTo? fuel)) (f.toJson toJson) (f.map erase) := by
        refine Form.stores hnode (fun x hx => hfloats x ?_) toJson_ne_null fun c hc => ?_
        · exact List.mem_flatMap.mpr ⟨_, mem_nodes_self _, hx⟩
        · have hlt := Form.depth_lt toJson hc
          refine ih c hc fuel (hchildren c hc) (fun x hx => hfloats x ?_) (by omega)
          exact floats_subset (mem_nodes_of_mem hc (mem_nodes_self c)) hx
      refine ⟨?_, hform.numbers⟩
      rw [Tree.ofJsonUpTo?, hform.reads, erase_mk]
      rfl

end Node

def Number.Binary64.isFinite : Binary64 → Bool
  | .finite _ _ _ => true
  | _ => false

/-- **The text of a tree is read as the tree**, whatever its nodes, members, constants and strings are. The
doubles in it are finite, and a finite double is taken to be read from its text; nothing is nested deeper
than is read. Labels are not part of the text. -/
theorem Tree.parse?_text {n : Node ι} (hwords : n.fitsWords = true)
    (hfinite : ∀ x ∈ n.floats, x.isFinite = true)
    (hread : ∀ x ∈ n.floats, x.isFinite = true → (Numeral.real x).ReadsBack)
    (hdepth : n.toJson.depth ≤ nestingLimit) : parse? n.text = some n.erase := by
  have hn := Node.stores_upTo n n.toJson.depth hwords (fun x hx => hread x hx (hfinite x hx)) (Nat.le_refl _)
  rw [parse?, Node.text, parse?_pretty hn.numbers, Option.bind_some, ofJson?, if_pos hdepth]
  exact hn.reads

theorem Tree.erase_eq_self (t : Tree) : t.erase = t := t.relabel_id

/-- A node of every form and a constant of every kind, with names and texts that are escaped. -/
def everyForm : Tree :=
  let node (f : Form Tree) : Tree := .mk () f
  let constant (v : ConstantValue) (ty : TypeRef) : Tree := node (.constant ⟨v, ty⟩)
  let item : TypeRef := TypeRef.named .classType "Demo" "Item`1"
  let part : TypeRef := { kind := .struct, name := "Part", declaring := some item, args := [.int] }
  let x : Variable := { name := "x", ty := .arrayOfRank part 255, isByRef := true }
  let exit : Target := { ty := .void, id := 2 ^ 32 - 1 }
  let add : MethodInfo :=
    { name := "Add", declaring := item, returnType := .void, isExtension := true,
      parameters := [{ name := "value", ty := .parameter "T", mode := .out, isParams := true }],
      genericParameters := [.parameter "T"], genericArgs := [.int] }
  let size : MemberInfo := { name := "Size", declaring := part, memberType := .int, kind := .property }
  let create : Creation Tree :=
    { ty := item, constructor := some { declaring := item, parameters := add.parameters },
      arguments := [node (.parameter x)], members := ["First"] }
  let closure : ConstantValue := .closure
    [⟨"least", .long, .int (-(2 ^ 63))⟩, ⟨"inner", item, .closure [⟨"most", .ulong, .uint (2 ^ 64 - 1)⟩]⟩]
  let literals : List Tree :=
    [constant .null item, constant (.bool true) .bool, constant closure item,
      constant (.float (.finite true 0 0)) .double, constant (.float (.finite false (3 * 2 ^ 51) 1022)) .double,
      constant (.decimal "0.10") .decimal, constant (.char '\"') .char, constant (.string "\x00\t→𝄞\\") .string,
      constant (.type part) .typeOfTypes, constant (.enumMember "Red") item, constant (.object "it") .object]
  let one : Tree := node (.binary .addChecked (node (.default .int)) (node (.comment "/")) .int (some add))
  node (.lambda (some "run") [x]
    (node (.block [x]
      [node (.conditional one (node (.unary .throw none .void none)) (node (.typeTest one item true)) .void),
        node (.call none add literals), node (.invoke one [one] .int), node (.member (some one) size),
        node (.new create), node (.newArray .int [one] true),
        node (.memberInit create [.nested size [.assignment size one], .list size [⟨add, [one]⟩]]),
        node (.listInit create [⟨add, [one]⟩]),
        node (.loop (node (.jump .break exit none .void)) (some exit) none),
        node (.label exit (some one)), node (.switch one [⟨[one], one⟩] (some one) .void),
        node (.try one [⟨.exception, some x, some one, one⟩] (some one) none .void),
        node (.index one (some size) [one] .int), node (.extension "ext" .int (some "?") [one])]
      .void))
    .void .object)

theorem Tree.parse?_everyForm : parse? everyForm.text = some everyForm := by
  have hread := Tree.parse?_text (n := everyForm) (by decide +kernel) (by decide +kernel) (by decide +kernel)
    (by decide +kernel)
  rwa [erase_eq_self] at hread

end TreeScribe
