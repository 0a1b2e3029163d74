import TreeScribe.Proofs.Render.Laid.Calls

/-! Initializers, creations and arrays are well laid. -/
namespace TreeScribe

open Render Atoms

variable {P : TypeRef → Prop}

namespace Render

variable (env : Env)

namespace Item

mutual

/-- All that the item holds is well laid. -/
def IsLaid (P : TypeRef → Prop) : Item → Prop
  | .value d => d.IsLaid P
  | .named _ d => d.IsLaid P
  | .nested _ items => AreLaid P items

def AreLaid (P : TypeRef → Prop) : List Item → Prop
  | [] => True
  | item :: items => item.IsLaid P ∧ AreLaid P items

end

abbrev AreWellLaid (items : List Item) : Prop := AreLaid (fun _ => True) items

theorem areLaid_of_forall {items : List Item} (h : ∀ item ∈ items, item.IsLaid P) :
    AreLaid P items := by
  induction items with
  | nil => trivial
  | cons item items ih =>
    exact ⟨h item (List.mem_cons_self ..), ih fun i hi => h i (List.mem_cons_of_mem _ hi)⟩

theorem laid_inBraces (long : Bool) (count : Nat) {contents : Atoms} (h : Laid P contents) :
    Laid P (inBraces long count contents) := by
  unfold inBraces
  split
  · exact .text _
  · split
    · grind -linarith
    · exact .bracketed _ _ h

mutual

theorem laid_write (long : Bool) : (item : Item) → item.IsLaid P → Laid P (write long item)
  | .value _, h => h
  | .named _ _, h => .append (.append (.text _) (.text _)) h
  | .nested _ items, h =>
    .append (.append (.text _) (.text _)) (laid_inBraces _ _ (laid_writeAll _ items h))

theorem laid_writeAll (long : Bool) :
    (items : List Item) → AreLaid P items → Laid P (writeAll long items)
  | [], _ => .nil
  | [item], h => laid_write long item h.1
  | item :: item' :: items, h => by
    have hitem := laid_write long item h.1
    have hitems := laid_writeAll long (item' :: items) h.2
    rw [writeAll]
    · grind -linarith
    · simp

end

theorem laid_initializer {items : List Item} (h : AreLaid P items) : Laid P (initializer items) :=
  laid_inBraces _ _ (laid_writeAll _ items h)

theorem isLaid_ofElement {i : ElementInit Doc} (h : ∀ d ∈ i.arguments, d.IsLaid P) :
    (ofElement i).IsLaid P := by
  unfold ofElement
  split
  next d heq => exact h d (by simp [heq])
  · exact Laid.bracketed _ _ (Doc.laid_separated _ h)

mutual

theorem isLaid_ofBinding : (b : Binding Doc) → (∀ d ∈ b.children, d.IsLaid P) →
    (ofBinding b).IsLaid P
  | .assignment _ d, h => h d (List.mem_cons_self ..)
  | .nested _ bs, h => areLaid_ofBindings bs h
  | .list _ items, h => by
    refine areLaid_of_forall fun item hitem => ?_
    obtain ⟨i, hi, rfl⟩ := List.mem_map.mp hitem
    exact isLaid_ofElement fun d hd => h d (List.mem_flatMap.mpr ⟨i, hi, hd⟩)

theorem areLaid_ofBindings : (bs : List (Binding Doc)) →
    (∀ d ∈ Binding.childrenAll bs, d.IsLaid P) → AreLaid P (ofBindings bs)
  | [], _ => trivial
  | b :: bs, h => by
    simp only [Binding.childrenAll, List.mem_append] at h
    exact ⟨isLaid_ofBinding b fun d hd => h d (.inl hd),
      areLaid_ofBindings bs fun d hd => h d (.inr hd)⟩

end

end Item

theorem laid_elementInit {i : ElementInit Child} (h : ∀ c ∈ i.arguments, LaidChild P c) :
    Gives (i.mapM value) fun i' => ∀ d ∈ i'.arguments, d.IsLaid P :=
  (laid_values h).bind fun _ hds => .pure hds

theorem laid_elementInits {items : List (ElementInit Child)}
    (h : ∀ c ∈ items.flatMap (·.arguments), LaidChild P c) :
    Gives (items.mapM (·.mapM value)) fun items' => ∀ i ∈ items', ∀ d ∈ i.arguments, d.IsLaid P :=
  .mapM fun i hi => laid_elementInit fun c hc => h c (List.mem_flatMap.mpr ⟨i, hi, hc⟩)

mutual

theorem laid_binding : (b : Binding Child) → (∀ c ∈ b.children, LaidChild P c) →
    Gives (Binding.mapM value b) fun b' => ∀ d ∈ b'.children, d.IsLaid P
  | .assignment _ c, h =>
    (laid_value (h c (List.mem_cons_self ..))).bind fun d hd =>
      .pure (by simpa [Binding.children] using hd)
  | .nested _ bs, h => (laid_bindings bs h).bind fun _ hbs => .pure hbs
  | .list _ items, h =>
    (laid_elementInits h).bind fun _ hitems => .pure fun d hd => by
      obtain ⟨i, hi, hd⟩ := List.mem_flatMap.mp hd
      exact hitems i hi d hd

theorem laid_bindings : (bs : List (Binding Child)) →
    (∀ c ∈ Binding.childrenAll bs, LaidChild P c) →
      Gives (Binding.mapAllM value bs) fun bs' => ∀ d ∈ Binding.childrenAll bs', d.IsLaid P
  | [], _ => .pure fun _ hd => nomatch hd
  | b :: bs, h => by
    simp only [Binding.childrenAll, List.mem_append] at h
    refine (laid_binding b fun c hc => h c (.inl hc)).bind fun b' hb' => ?_
    refine (laid_bindings bs fun c hc => h c (.inr hc)).bind fun bs' hbs' => .pure ?_
    simp only [Binding.childrenAll, List.mem_append]
    rintro d (hd | hd)
    · exact hb' d hd
    · exact hbs' d hd

end

section Creation

variable {creation : Creation Child} (h : ∀ c ∈ creation.arguments, LaidChild P c)
  (houtputs : ∀ t ∈ Named.outputs env (creation.arguments.map (·.1)), P t)

include h houtputs

theorem laid_new (hname : creation.ty.isAnonymous = false → P creation.ty) :
    Gives (new env creation) (Doc.IsLaid P) := by
  unfold new
  dsimp only
  split
  · have hitem : ∀ p ∈ creation.members.zip creation.arguments,
        Gives (do return Item.named p.1 (← value p.2)) (Item.IsLaid P) :=
      fun p hp => (laid_value (h p.2 (List.of_mem_zip hp).2)).bind fun d hd => .pure hd
    refine (Gives.mapM hitem).bind fun items hitems => .pure ?_
    exact .append (.keyword _) (Item.laid_initializer (Item.areLaid_of_forall hitems))
  next hnamed =>
    have hlead : Laid P (space ++ env.typeName creation.ty) :=
      .append .space (laid_typeName env (hname (Bool.not_eq_true _ ▸ hnamed)))
    exact (laid_argumentList env h houtputs _).bind fun list hlist =>
      .pure (.append (.keyword _) (hlead.append hlist))

variable (hname : P creation.ty)

include hname

theorem laid_newAtoms : Gives (newAtoms env creation) (Laid P) := by
  unfold newAtoms
  dsimp only
  split
  · exact .pure (by grind -linarith)
  · exact (laid_argumentList env h houtputs _).bind fun list hlist => .pure (by grind -linarith)

theorem laid_filled {items : Rendering (List Item)} (hitems : Gives items (Item.AreLaid P)) :
    Gives (filled env creation items) (Laid P) := by
  refine (laid_newAtoms env h houtputs hname).bind fun lead hlead => hitems.bind fun is his => ?_
  split
  · exact .pure (.append hlead (.when _ (.text _)))
  · exact .pure (.append hlead (Item.laid_initializer his))

theorem laid_memberInit {bindings : List (Binding Child)}
    (hbindings : ∀ c ∈ Binding.childrenAll bindings, LaidChild P c) :
    Gives (memberInit env creation bindings) (Doc.IsLaid P) := by
  refine (laid_filled env h houtputs hname ?_).bind fun as has => .pure has
  exact (laid_bindings bindings hbindings).bind fun bs hbs => .pure (Item.areLaid_ofBindings bs hbs)

theorem laid_listInit {items : List (ElementInit Child)}
    (hitems : ∀ c ∈ items.flatMap (·.arguments), LaidChild P c) :
    Gives (listInit env creation items) (Doc.IsLaid P) := by
  refine (laid_filled env h houtputs hname ?_).bind fun as has => .pure has
  refine (laid_elementInits hitems).bind fun is his => .pure (Item.areLaid_of_forall ?_)
  intro item hitem
  obtain ⟨i, hi, rfl⟩ := List.mem_map.mp hitem
  exact Item.isLaid_ofElement (his i hi)

end Creation

theorem laid_newArray {elementType : TypeRef} {expressions : List Child} {bounds : Bool}
    (h : ∀ c ∈ expressions, LaidChild P c)
    (hnames : ∀ t ∈ Named.newArray env.settings elementType (expressions.map (·.1)) bounds, P t) :
    Gives (newArray env elementType expressions bounds) (Doc.IsLaid P) := by
  unfold Named.newArray at hnames
  refine (laid_values h).bind fun ds hds => ?_
  have hinit : Laid P (Item.initializer (ds.map .value)) := by
    refine Item.laid_initializer (Item.areLaid_of_forall fun item hitem => ?_)
    obtain ⟨d, hd, rfl⟩ := List.mem_map.mp hitem
    exact hds d hd
  have htypes : (expressions.map (·.1)).map (·.ty) = expressions.map (·.1.ty) := List.map_map
  rw [List.isEmpty_map, htypes] at hnames
  dsimp only
  split
  next hsized =>
    rw [if_pos hsized] at hnames
    have hname := hnames _ (List.mem_singleton_self _)
    exact .pure (by grind -linarith)
  next hfilled =>
    rw [if_neg hfilled] at hnames
    refine .pure (.append (.keyword _) (.append (.append ?_ (.text _)) hinit))
    split
    · exact .nil
    next hleft =>
      rw [if_neg hleft] at hnames
      exact .append .space (laid_typeName env (hnames _ (List.mem_singleton_self _)))

end Render

end TreeScribe
