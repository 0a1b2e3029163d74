import TreeScribe.Proofs.Render.Alike.Calls

/-! Initializers, creations and arrays of a tree and its twin. -/
namespace TreeScribe

open Atoms Render

namespace Twins

variable {T : Twins} {d d' : Doc}

section Items

mutual

/-- Items of initializers that agree. -/
def AgreeItem (T : Twins) : Item → Item → Prop
  | .value d, .value d' => T.Part d d'
  | .named name d, .named name' d' => name = name' ∧ T.Part d d'
  | .nested name items, .nested name' items' => name = name' ∧ AgreeItems T items items'
  | _, _ => False

def AgreeItems (T : Twins) : List Item → List Item → Prop
  | [], [] => True
  | item :: items, item' :: items' => AgreeItem T item item' ∧ AgreeItems T items items'
  | _, _ => False

end

theorem agreeItems_of_forall₂ {items items' : List Item} (h : List.Forall₂ T.AgreeItem items items') :
    T.AgreeItems items items' := by
  induction h with
  | nil => exact trivial
  | cons hitem _ ih => exact ⟨hitem, ih⟩

theorem length_agreeItems {items items' : List Item} (h : T.AgreeItems items items') :
    items.length = items'.length := by
  induction items generalizing items' with
  | nil =>
    cases items' with
    | nil => rfl
    | cons _ _ => exact h.elim
  | cons item items ih =>
    cases items' with
    | nil => exact h.elim
    | cons item' items' => rw [List.length_cons, List.length_cons, ih h.2]

mutual

theorem size_agreeItem : (item item' : Item) → T.AgreeItem item item' → item.size = item'.size
  | .value _, .value _, h => h.size
  | .named name d, .named name' d', ⟨hname, hd⟩ => by rw [Item.size, Item.size, hname, hd.size]
  | .nested name items, .nested name' items', ⟨hname, hitems⟩ => by
    rw [Item.size, Item.size, hname, sizes_agreeItems items items' hitems, length_agreeItems hitems]
  | .value _, .named _ _, h | .value _, .nested _ _, h | .named _ _, .value _, h
  | .named _ _, .nested _ _, h | .nested _ _, .value _, h | .nested _ _, .named _ _, h => h.elim

theorem sizes_agreeItems : (items items' : List Item) → T.AgreeItems items items' →
    Item.sizes items = Item.sizes items'
  | [], [], _ => rfl
  | item :: items, item' :: items', ⟨hitem, hitems⟩ => by
    rw [Item.sizes, Item.sizes, size_agreeItem item item' hitem, sizes_agreeItems items items' hitems]
  | [], _ :: _, h | _ :: _, [], h => h.elim

end

mutual

theorem isMultiLine_agreeItem : (item item' : Item) → T.AgreeItem item item' →
    item.isMultiLine = item'.isMultiLine
  | .value _, .value _, h => h.isMultiLine
  | .named _ _, .named _ _, ⟨_, hd⟩ => hd.isMultiLine
  | .nested name items, .nested name' items', ⟨_, hitems⟩ => by
    rw [Item.isMultiLine, Item.isMultiLine, Item.contentsSize, Item.contentsSize,
      sizes_agreeItems items items' hitems, length_agreeItems hitems,
      anyMultiLine_agreeItems items items' hitems]
  | .value _, .named _ _, h | .value _, .nested _ _, h | .named _ _, .value _, h
  | .named _ _, .nested _ _, h | .nested _ _, .value _, h | .nested _ _, .named _ _, h => h.elim

theorem anyMultiLine_agreeItems : (items items' : List Item) → T.AgreeItems items items' →
    Item.anyMultiLine items = Item.anyMultiLine items'
  | [], [], _ => rfl
  | item :: items, item' :: items', ⟨hitem, hitems⟩ => by
    rw [Item.anyMultiLine, Item.anyMultiLine, isMultiLine_agreeItem item item' hitem,
      anyMultiLine_agreeItems items items' hitems]
  | [], _ :: _, h | _ :: _, [], h => h.elim

end

theorem isLong_agreeItems {items items' : List Item} (h : T.AgreeItems items items') :
    Item.isLong items = Item.isLong items' := by
  rw [Item.isLong, Item.isLong, Item.contentsSize, Item.contentsSize,
    sizes_agreeItems items items' h, length_agreeItems h, anyMultiLine_agreeItems items items' h]

theorem matches_inBraces (long : Bool) (count : Nat) {as bs : Atoms} (h : Matches T.base as bs) :
    Matches T.base (Item.inBraces long count as) (Item.inBraces long count bs) := by
  unfold Item.inBraces
  split
  · exact .text _
  · split
    · exact .append .newline (.bracketed _ _ (.append (.indented (.append .newline h)) .newline))
    · exact .bracketed _ _ h

mutual

theorem matches_write (long : Bool) : (item item' : Item) → T.AgreeItem item item' →
    Matches T.base (item.write long) (item'.write long)
  | .value _, .value _, h => h.atoms
  | .named name d, .named name' d', ⟨hname, hd⟩ => by
    rw [Item.write, Item.write, hname]
    exact .append (.append (.text _) (.text _)) hd.atoms
  | .nested name items, .nested name' items', ⟨hname, hitems⟩ => by
    rw [Item.write, Item.write, hname, isLong_agreeItems hitems, length_agreeItems hitems]
    exact .append (.append (.text _) (.text _))
      (matches_inBraces _ _ (matches_writeAll _ items items' hitems))
  | .value _, .named _ _, h | .value _, .nested _ _, h | .named _ _, .value _, h
  | .named _ _, .nested _ _, h | .nested _ _, .value _, h | .nested _ _, .named _ _, h => h.elim

theorem matches_writeAll (long : Bool) : (items items' : List Item) → T.AgreeItems items items' →
    Matches T.base (Item.writeAll long items) (Item.writeAll long items')
  | [], [], _ => .nil
  | [item], [item'], ⟨hitem, _⟩ => by
    rw [Item.writeAll, Item.writeAll]
    exact matches_write long item item' hitem
  | item :: next :: items, item' :: next' :: items', ⟨hitem, hitems⟩ => by
    have hblank : Matches T.base (if long then newline else space) (if long then newline else space) := by
      split
      · exact .newline
      · exact .space
    exact .append (.append (.append (matches_write long item item' hitem) (.text _)) hblank)
      (matches_writeAll long (next :: items) (next' :: items') hitems)
  | [], _ :: _, h | _ :: _, [], h | [_], _ :: _ :: _, ⟨_, h⟩ | _ :: _ :: _, [_], ⟨_, h⟩ => h.elim

end

theorem matches_initializer {items items' : List Item} (h : T.AgreeItems items items') :
    Matches T.base (Item.initializer items) (Item.initializer items') := by
  rw [Item.initializer, Item.initializer, isLong_agreeItems h, length_agreeItems h]
  exact matches_inBraces _ _ (matches_writeAll _ items items' h)

theorem agreeItem_ofElement (m : MethodInfo) {ds ds' : List Doc} (h : List.Forall₂ T.Part ds ds') :
    T.AgreeItem (Item.ofElement ⟨m, ds⟩) (Item.ofElement ⟨m, ds'⟩) := by
  have hbraced : T.Part
      { kind := .listInit, ty := .void, atoms := bracketed "\x7b " " \x7d" (Render.separated ", " ds) }
      { kind := .listInit, ty := .void, atoms := bracketed "\x7b " " \x7d" (Render.separated ", " ds') } :=
    ⟨⟨rfl, rfl, rfl, rfl, rfl⟩, .bracketed _ _ (matches_separated _ h)⟩
  cases h with
  | nil => exact hbraced
  | cons hd hds =>
    cases hds with
    | nil => exact hd
    | cons _ _ => exact hbraced

theorem alike_elementInits {items : List (ElementInit Expr)}
    (h : T.AgreesOn (Arrangement.values (items.flatMap (·.arguments)))) :
    Alike (fun is is' => T.AgreeItems (is.map Item.ofElement) (is'.map Item.ofElement))
      ((items.map (·.map T.child)).mapM (·.mapM value))
      ((items.map (·.map T.twinOf)).mapM (·.mapM value)) := by
  have heach : Alike (List.Forall₂ fun i i' => T.AgreeItem (Item.ofElement i) (Item.ofElement i'))
      ((items.map (·.map T.child)).mapM (·.mapM value))
      ((items.map (·.map T.twinOf)).mapM (·.mapM value)) := by
    refine .mapM fun i hi => ?_
    have harguments : T.AgreesOn (Arrangement.values i.arguments) := by
      rw [Arrangement.values, List.map_flatMap] at h
      exact h.flatMap hi
    exact (alike_values harguments).last fun ds ds' hds => agreeItem_ofElement i.addMethod hds
  refine heach.mono fun is is' his => agreeItems_of_forall₂ ?_
  rwa [List.forall₂_map_left_iff, List.forall₂_map_right_iff]

mutual

theorem alike_binding : (b : Binding Expr) → T.AgreesOn (Arrangement.values b.children) →
    Alike (fun b b' => T.AgreeItem (Item.ofBinding b) (Item.ofBinding b'))
      (Binding.mapM value (b.map T.child)) (Binding.mapM value (b.map T.twinOf))
  | .assignment m e, h => (alike_value h).last fun d d' hd => by
    rw [Item.ofBinding, Item.ofBinding]
    exact ⟨rfl, hd⟩
  | .nested m bindings, h => by
    rw [Binding.map, Binding.map, Binding.mapM, Binding.mapM]
    refine (alike_bindings bindings (by rwa [Binding.children] at h)).last fun bs bs' hbs => ?_
    rw [Item.ofBinding, Item.ofBinding]
    exact ⟨rfl, hbs⟩
  | .list m items, h => by
    rw [Binding.map, Binding.map, Binding.mapM, Binding.mapM]
    refine (alike_elementInits (by rwa [Binding.children] at h)).last fun is is' his => ?_
    rw [Item.ofBinding, Item.ofBinding]
    exact ⟨rfl, his⟩

theorem alike_bindings : (bs : List (Binding Expr)) →
    T.AgreesOn (Arrangement.values (Binding.childrenAll bs)) →
    Alike (fun bs bs' => T.AgreeItems (Item.ofBindings bs) (Item.ofBindings bs'))
      (Binding.mapAllM value (Binding.mapAll T.child bs))
      (Binding.mapAllM value (Binding.mapAll T.twinOf bs))
  | [], _ => .pure trivial
  | b :: bs, h => by
    rw [Binding.childrenAll, values_append, AgreesOn.append_iff] at h
    rw [Binding.mapAll, Binding.mapAll, Binding.mapAllM, Binding.mapAllM]
    refine (alike_binding b h.1).bind fun c c' hc => (alike_bindings bs h.2).last fun cs cs' hcs => ?_
    rw [Item.ofBindings, Item.ofBindings]
    exact ⟨hc, hcs⟩

end

section Creations

variable {creation : Creation Expr}

theorem alike_filled {items items' : Rendering (List Item)} (hitems : Alike T.AgreeItems items items')
    (h : T.AgreesOn (Arrangement.values creation.arguments)) :
    Alike (Matches T.base) (filled T.env (creation.map T.child) items)
      (filled T.twin (creation.map T.twinOf) items') := by
  have hempty (c : Expr → Child) : (creation.map c).arguments.isEmpty = creation.arguments.isEmpty :=
    List.isEmpty_map
  have hty : Matches T.base (keyword "new" ++ space ++ T.env.typeName creation.ty)
      (keyword "new" ++ space ++ T.twin.typeName creation.ty) := by
    grind
  have hlead : Alike (Matches T.base) (newAtoms T.env (creation.map T.child))
      (newAtoms T.twin (creation.map T.twinOf)) := by
    unfold newAtoms
    dsimp only
    rw [hempty, hempty]
    split
    · exact .pure hty
    · refine Alike.last (alike_argumentList [] ?_) fun d d' hd => .append hty hd.atoms
      rwa [arguments_nil]
  refine hlead.bind fun lead lead' hlead => hitems.bind fun is is' his => ?_
  cases is with
  | nil =>
    cases is' with
    | nil =>
      dsimp only
      rw [hempty, hempty]
      exact .pure (.append hlead (.when _ (.text _)))
    | cons _ _ => exact his.elim
  | cons item is =>
    cases is' with
    | nil => exact his.elim
    | cons item' is' => exact .pure (.append hlead (matches_initializer his))

theorem alike_memberInit {bindings : List (Binding Expr)}
    (h : T.AgreesOn (Arrangement.values (creation.arguments ++ Binding.childrenAll bindings))) :
    Alike T.Part (memberInit T.env (creation.map T.child) (Binding.mapAll T.child bindings))
      (memberInit T.twin (creation.map T.twinOf) (Binding.mapAll T.twinOf bindings)) := by
  rw [values_append, AgreesOn.append_iff] at h
  have hitems := (alike_bindings bindings h.2).last fun bs bs' hbs => hbs
  exact (alike_filled hitems h.1).last fun as as' has => ⟨⟨rfl, rfl, rfl, rfl, rfl⟩, has⟩

theorem alike_listInit {items : List (ElementInit Expr)}
    (h : T.AgreesOn (Arrangement.values (creation.arguments ++ items.flatMap (·.arguments)))) :
    Alike T.Part (listInit T.env (creation.map T.child) (items.map (·.map T.child)))
      (listInit T.twin (creation.map T.twinOf) (items.map (·.map T.twinOf))) := by
  rw [values_append, AgreesOn.append_iff] at h
  have hitems := (alike_elementInits h.2).last fun is is' his => his
  exact (alike_filled hitems h.1).last fun as as' has => ⟨⟨rfl, rfl, rfl, rfl, rfl⟩, has⟩

theorem alike_new
    (h : T.AgreesOn (if creation.ty.isAnonymous then
        Arrangement.values ((creation.members.zip creation.arguments).map (·.2))
      else Arrangement.arguments creation.arguments
        ((creation.constructor.map (·.parameters)).getD []))) :
    Alike T.Part (new T.env (creation.map T.child)) (new T.twin (creation.map T.twinOf)) := by
  obtain ⟨ty, constructor, arguments, members⟩ := creation
  have hdoc {as bs : Atoms} (has : Matches T.base as bs) :
      T.Part { kind := .new, ty, atoms := keyword "new" ++ as }
        { kind := .new, ty, atoms := keyword "new" ++ bs } :=
    ⟨⟨rfl, rfl, rfl, rfl, rfl⟩, .append (.keyword _) has⟩
  cases hanonymous : ty.isAnonymous with
  | true =>
    have hzip (c : Expr → Child) : members.zip (arguments.map c) =
        (members.zip arguments).map fun p => (p.1, c p.2) :=
      List.zip_map_right ..
    simp only [hanonymous, if_true] at h
    simp only [new, Creation.map, hanonymous, if_true, hzip]
    refine Alike.last (.mapM fun p hp => ?_) fun is is' his =>
      hdoc (matches_initializer (agreeItems_of_forall₂ his))
    exact (alike_value (h.values (List.mem_map_of_mem hp))).last fun d d' hd => ⟨rfl, hd⟩
  | false =>
    simp only [hanonymous, Bool.false_eq_true, if_false] at h
    simp only [new, Creation.map, hanonymous, Bool.false_eq_true, if_false]
    exact (alike_argumentList _ h).last fun d d' hd =>
      hdoc (.append (.append .space (matches_typeName _)) hd.atoms)

end Creations

theorem alike_newArray (elementType : TypeRef) {es : List Expr} (bounds : Bool)
    (h : T.AgreesOn (Arrangement.values es)) :
    Alike T.Part (newArray T.env elementType (es.map T.child) bounds)
      (newArray T.twin elementType (es.map T.twinOf) bounds) := by
  have hrank (c : Expr → Child) : Form.arrayRank (es.map c) bounds = Form.arrayRank es bounds := by
    simp [Form.arrayRank]
  have htypes : (es.map T.twinOf).map (·.1.ty) = (es.map T.child).map (·.1.ty) := by
    simp
  unfold newArray
  dsimp only
  rw [hrank, hrank, htypes, List.isEmpty_map, List.isEmpty_map, settings_env, settings_twin]
  refine (alike_values h).bind fun ds ds' hds => ?_
  split
  · refine .pure ⟨⟨rfl, rfl, rfl, rfl, rfl⟩, .append (.keyword _) ?_⟩
    have hsizes : Matches T.base (if bounds then Render.separated ", " ds else text "0")
        (if bounds then Render.separated ", " ds' else text "0") := by
      split
      · exact matches_separated _ hds
      · exact .text _
    exact .append (.append (.append .space (matches_typeName _)) (.bracketed _ _ hsizes)) (.text _)
  · refine .pure ⟨⟨rfl, rfl, rfl, rfl, rfl⟩, .append (.keyword _) (.append (.append ?_ (.text _))
      (matches_initializer (agreeItems_of_forall₂ ?_)))⟩
    · split
      · exact .nil
      · exact .append .space (matches_typeName _)
    · rw [List.forall₂_map_left_iff, List.forall₂_map_right_iff]
      exact hds.imp fun d d' hd => hd

end Items

end Twins

end TreeScribe
