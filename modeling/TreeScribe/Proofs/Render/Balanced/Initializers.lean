import TreeScribe.Proofs.Render.Balanced.Calls

/-! The brackets of initializers, creations and arrays are closed. -/
namespace TreeScribe

open Render Atoms

namespace Render

variable {env : Env} (henv : env.IsPlain)

include henv

namespace Item

omit henv

mutual

/-- There are no brackets in the names that the item holds, and all those in its documents are closed. -/
def IsBalanced : Item → Prop
  | .value d => d.IsBalanced
  | .named name d => TreeScribe.IsPlain name ∧ d.IsBalanced
  | .nested name items => TreeScribe.IsPlain name ∧ AreBalanced items

def AreBalanced : List Item → Prop
  | [] => True
  | item :: items => item.IsBalanced ∧ AreBalanced items

end

theorem areBalanced_of_forall {items : List Item} (h : ∀ item ∈ items, item.IsBalanced) :
    AreBalanced items := by
  induction items with
  | nil => trivial
  | cons item items ih =>
    exact ⟨h item (List.mem_cons_self ..), ih fun i hi => h i (List.mem_cons_of_mem _ hi)⟩

theorem balanced_inBraces (long : Bool) (count : Nat) {contents : Atoms} (h : Balanced contents) :
    Balanced (inBraces long count contents) := by
  unfold inBraces
  split
  · exact .nestedText rfl
  · split
    · grind -linarith
    · exact .initializer h

mutual

theorem balanced_write (long : Bool) : (item : Item) → item.IsBalanced → Balanced (write long item)
  | .value _, h => h
  | .named _ _, h => .append (.append (.text h.1) (.text (by decide))) h.2
  | .nested _ items, h =>
    .append (.append (.text h.1) (.text (by decide))) (balanced_inBraces _ _ (balanced_writeAll _ items h.2))

theorem balanced_writeAll (long : Bool) :
    (items : List Item) → AreBalanced items → Balanced (writeAll long items)
  | [], _ => .nil
  | [item], h => balanced_write long item h.1
  | item :: item' :: items, h => by
    have hitem := balanced_write long item h.1
    have hitems := balanced_writeAll long (item' :: items) h.2
    rw [writeAll]
    · grind -linarith
    · simp

end

theorem balanced_initializer {items : List Item} (h : AreBalanced items) : Balanced (initializer items) :=
  balanced_inBraces _ _ (balanced_writeAll _ items h)

theorem isBalanced_ofElement {i : ElementInit Doc} (h : ∀ d ∈ i.arguments, d.IsBalanced) :
    (ofElement i).IsBalanced := by
  unfold ofElement
  split
  next d heq => exact h d (by simp [heq])
  · exact Balanced.element (Doc.balanced_separated (by decide) h)

mutual

theorem isBalanced_ofBinding : (b : Binding Doc) → AllPlain b.texts → (∀ d ∈ b.children, d.IsBalanced) →
    (ofBinding b).IsBalanced
  | .assignment _ d, hb, h => ⟨(allPlain_cons.mp hb).1, h d (List.mem_cons_self ..)⟩
  | .nested _ bs, hb, h => ⟨(allPlain_cons.mp hb).1, areBalanced_ofBindings bs (allPlain_cons.mp hb).2 h⟩
  | .list _ items, hb, h => by
    refine ⟨(allPlain_cons.mp hb).1, areBalanced_of_forall (List.forall_mem_map.mpr fun i hi => ?_)⟩
    exact isBalanced_ofElement fun d hd => h d (List.mem_flatMap.mpr ⟨i, hi, hd⟩)

theorem areBalanced_ofBindings : (bs : List (Binding Doc)) → AllPlain (Binding.textsAll bs) →
    (∀ d ∈ Binding.childrenAll bs, d.IsBalanced) → AreBalanced (ofBindings bs)
  | [], _, _ => trivial
  | b :: bs, hbs, h => by
    obtain ⟨hb, hbs⟩ := allPlain_append.mp hbs
    simp only [Binding.childrenAll, List.mem_append] at h
    exact ⟨isBalanced_ofBinding b hb fun d hd => h d (.inl hd),
      areBalanced_ofBindings bs hbs fun d hd => h d (.inr hd)⟩

end

end Item

omit henv in
theorem balanced_elementInits {items : List (ElementInit Child)}
    (h : ∀ c ∈ items.flatMap (·.arguments), BalancedChild c) :
    Gives (items.mapM (·.mapM value)) fun items' => ∀ i ∈ items', ∀ d ∈ i.arguments, d.IsBalanced :=
  .mapM fun i hi => (balanced_values fun c hc => h c (List.mem_flatMap.mpr ⟨i, hi, hc⟩)).bind fun _ hds =>
    .pure hds

section Bindings

omit henv

mutual

/-- The names in a binding stay as they are. -/
theorem balanced_binding : (b : Binding Child) → (∀ c ∈ b.children, BalancedChild c) →
    Gives (Binding.mapM value b) fun b' => b'.texts = b.texts ∧ ∀ d ∈ b'.children, d.IsBalanced
  | .assignment _ c, h =>
    (balanced_value (h c (List.mem_cons_self ..))).bind fun d hd =>
      .pure ⟨rfl, by simpa [Binding.children] using hd⟩
  | .nested m bs, h => (balanced_bindings bs h).bind fun _ hbs => .pure ⟨congrArg (m.name :: ·) hbs.1, hbs.2⟩
  | .list _ items, h =>
    (balanced_elementInits h).bind fun _ hitems => .pure ⟨rfl, fun d hd => by
      obtain ⟨i, hi, hd⟩ := List.mem_flatMap.mp hd
      exact hitems i hi d hd⟩

theorem balanced_bindings : (bs : List (Binding Child)) →
    (∀ c ∈ Binding.childrenAll bs, BalancedChild c) → Gives (Binding.mapAllM value bs) fun bs' =>
      Binding.textsAll bs' = Binding.textsAll bs ∧ ∀ d ∈ Binding.childrenAll bs', d.IsBalanced
  | [], _ => .pure ⟨rfl, fun _ hd => nomatch hd⟩
  | b :: bs, h => by
    simp only [Binding.childrenAll, List.mem_append] at h
    refine (balanced_binding b fun c hc => h c (.inl hc)).bind fun b' hb' => ?_
    refine (balanced_bindings bs fun c hc => h c (.inr hc)).bind fun bs' hbs' => .pure ?_
    refine ⟨by rw [Binding.textsAll, Binding.textsAll, hb'.1, hbs'.1], ?_⟩
    simp only [Binding.childrenAll, List.mem_append]
    rintro d (hd | hd)
    · exact hb'.2 d hd
    · exact hbs'.2 d hd

end

end Bindings

section Creation

variable {creation : Creation Child} (hcreation : AllPlain creation.texts)
  (h : ∀ c ∈ creation.arguments, BalancedChild c)

include hcreation h

theorem balanced_new : Gives (new env creation) Doc.IsBalanced := by
  obtain ⟨hty, hmembers⟩ := allPlain_append.mp hcreation
  unfold new
  dsimp only
  split
  · have hitem : ∀ p ∈ creation.members.zip creation.arguments,
        Gives (do return Item.named p.1 (← value p.2)) Item.IsBalanced := fun p hp =>
      (balanced_value (h p.2 (List.of_mem_zip hp).2)).bind fun d hd =>
        .pure ⟨hmembers p.1 (List.of_mem_zip hp).1, hd⟩
    refine (Gives.mapM hitem).bind fun items hitems => .pure ?_
    exact .append (.keyword (by decide)) (Item.balanced_initializer (Item.areBalanced_of_forall hitems))
  · have hlead : Balanced (space ++ env.typeName creation.ty) := .append .space (balanced_typeName henv hty)
    exact (balanced_argumentList henv h _).bind fun list hlist =>
      .pure (.append (.keyword (by decide)) (hlead.append hlist))

theorem balanced_newAtoms : Gives (newAtoms env creation) Balanced := by
  have hname := balanced_typeName henv (allPlain_append.mp hcreation).1
  unfold newAtoms
  dsimp only
  split
  · exact .pure (by grind -linarith)
  · exact (balanced_argumentList henv h _).bind fun list hlist => .pure (by grind -linarith)

theorem balanced_filled {items : Rendering (List Item)} (hitems : Gives items Item.AreBalanced) :
    Gives (filled env creation items) Balanced := by
  refine (balanced_newAtoms henv hcreation h).bind fun lead hlead => hitems.bind fun is his => ?_
  split
  · exact .pure (.append hlead (.when _ (.nestedText rfl)))
  · exact .pure (.append hlead (Item.balanced_initializer his))

theorem balanced_memberInit {bindings : List (Binding Child)} (hnames : AllPlain (Binding.textsAll bindings))
    (hbindings : ∀ c ∈ Binding.childrenAll bindings, BalancedChild c) :
    Gives (memberInit env creation bindings) Doc.IsBalanced := by
  refine (balanced_filled henv hcreation h ?_).bind fun as has => .pure has
  refine (balanced_bindings bindings hbindings).bind fun bs hbs => .pure ?_
  exact Item.areBalanced_ofBindings bs (hbs.1 ▸ hnames) hbs.2

theorem balanced_listInit {items : List (ElementInit Child)}
    (hitems : ∀ c ∈ items.flatMap (·.arguments), BalancedChild c) :
    Gives (listInit env creation items) Doc.IsBalanced := by
  refine (balanced_filled henv hcreation h ?_).bind fun as has => .pure has
  refine (balanced_elementInits hitems).bind fun is his => .pure (Item.areBalanced_of_forall ?_)
  exact List.forall_mem_map.mpr fun i hi => Item.isBalanced_ofElement (his i hi)

end Creation

omit henv in
/-- The type at the bottom of arrays has the same names, and the brackets of the arrays are closed. -/
theorem splitJagged_texts (t : TypeRef) :
    (splitJagged t).1.texts = t.texts ∧ IsNested (splitJagged t).2.toList := by
  induction t using splitJagged.induct with
  | case1 _ _ _ _ _ element rank _ _ _ _ _ ih =>
    refine ⟨ih.1, ?_⟩
    rw [splitJagged, String.toList_append]
    exact (TypeRef.nested_brackets rank).append ih.2
  | case2 t hplain =>
    obtain ⟨_, _, _, _, _, element, _, _, _⟩ := t
    cases element with
    | some element => exact absurd rfl (hplain _ _ _ _ _ element _ _ _)
    | none => exact ⟨rfl, rfl⟩

theorem balanced_newArray {elementType : TypeRef} (htype : AllPlain elementType.texts)
    {expressions : List Child} (h : ∀ c ∈ expressions, BalancedChild c) (bounds : Bool) :
    Gives (newArray env elementType expressions bounds) Doc.IsBalanced := by
  refine (balanced_values h).bind fun ds hds => ?_
  have hname := balanced_typeName henv htype
  dsimp only
  split
  · obtain ⟨hsame, hrest⟩ := splitJagged_texts elementType
    have hinnermost := balanced_typeName henv (hsame ▸ htype)
    have hrest := Balanced.nestedText hrest
    have hsizes : Balanced (if bounds then separated ", " ds else text "0") := by
      split <;> grind -linarith
    exact .pure (by grind -linarith)
  · have hitems : Item.AreBalanced (ds.map .value) := Item.areBalanced_of_forall (List.forall_mem_map.mpr hds)
    have hempty : Balanced (text "[]") := .nestedText rfl
    refine .pure (.append (.keyword (by decide)) (.append (.append ?_ hempty) (Item.balanced_initializer hitems)))
    split
    · exact .nil
    · exact .append .space hname

end Render

end TreeScribe
