import TreeScribe.Proofs.Render.Arrangement.Calls

/-! The pieces of initializers, creations and arrays. -/
namespace TreeScribe

namespace Render

open Arrangement

variable (env : Env)

namespace Item

mutual

/-- The marks of an item, in order. -/
def marks : Item → List Atom
  | .value d => d.marks
  | .named _ d => d.marks
  | .nested _ items => marksAll items

def marksAll : List Item → List Atom
  | [] => []
  | item :: items => marks item ++ marksAll items

end

theorem marks_inBraces (long : Bool) {count : Nat} {contents : Atoms}
    (h : count = 0 → contents.marks = []) : (inBraces long count contents).marks = contents.marks := by
  unfold inBraces
  split
  next hcount => simp [h hcount]
  · split <;> simp

mutual

theorem marks_write (long : Bool) : (item : Item) → (write long item).marks = item.marks
  | .value d => rfl
  | .named name d => by
    simp only [write, marks, Atoms.marks_append, Atoms.marks_text]
    rfl
  | .nested name items => by
    have hcount : items.length = 0 → (writeAll (long || isLong items) items).marks = [] := by
      intro hlength
      rw [List.length_eq_zero_iff.mp hlength]
      rfl
    simp only [write, marks, Atoms.marks_append, Atoms.marks_text]
    rw [marks_inBraces _ hcount, marks_writeAll _ items]
    rfl

theorem marks_writeAll (long : Bool) : (items : List Item) → (writeAll long items).marks = marksAll items
  | [] => rfl
  | [item] => by
    simp only [writeAll, marksAll, List.append_nil]
    exact marks_write long item
  | item :: item' :: items => by
    have hblank : Atoms.marks (if long then Atoms.newline else Atoms.space) = [] := by
      cases long <;> simp
    have hwrite : writeAll long (item :: item' :: items) = write long item ++ Atoms.text "," ++
        (if long then Atoms.newline else Atoms.space) ++ writeAll long (item' :: items) :=
      rfl
    rw [hwrite, Atoms.marks_append, Atoms.marks_append, Atoms.marks_append, hblank,
      marks_write long item, marks_writeAll long (item' :: items)]
    simp [marksAll]

end

theorem marks_initializer (items : List Item) : (initializer items).marks = marksAll items := by
  unfold initializer
  rw [marks_inBraces, marks_writeAll]
  intro hlength
  rw [List.length_eq_zero_iff.mp hlength]
  rfl

theorem marks_ofElement (i : ElementInit Doc) :
    (ofElement i).marks = i.arguments.flatMap Doc.marks := by
  unfold ofElement
  split
  next d hd => simp [hd, marks]
  · simp [marks, Doc.marks, marks_separated]

theorem marksAll_map {α : Type} (f : α → Item) (as : List α) :
    marksAll (as.map f) = as.flatMap fun a => (f a).marks := by
  induction as with
  | nil => rfl
  | cons a as ih => rw [List.map_cons, marksAll, ih, List.flatMap_cons]

mutual

theorem marks_ofBinding : (b : Binding Doc) → (ofBinding b).marks = b.children.flatMap Doc.marks
  | .assignment m d => by simp [ofBinding, marks, Binding.children]
  | .nested m bindings => by
    simp only [ofBinding, marks, Binding.children]
    exact marksAll_ofBindings bindings
  | .list m items => by
    simp only [ofBinding, marks, Binding.children, marksAll_map, marks_ofElement, List.flatMap_assoc]

theorem marksAll_ofBindings : (bs : List (Binding Doc)) →
    marksAll (ofBindings bs) = (Binding.childrenAll bs).flatMap Doc.marks
  | [] => rfl
  | b :: bs => by
    simp only [ofBindings, marksAll, Binding.childrenAll, List.flatMap_append]
    rw [marks_ofBinding b, marksAll_ofBindings bs]

end

end Item

theorem values_append (es es' : List Expr) :
    Arrangement.values (es ++ es') = Arrangement.values es ++ Arrangement.values es' :=
  List.map_append

theorem adds_elementInits (items : List (ElementInit Expr)) :
    Adds env (List.flatMap fun i => i.arguments.flatMap Doc.marks)
      ((items.map (·.map env.child)).mapM (·.mapM value)) []
      (Arrangement.values (items.flatMap (·.arguments))) := by
  induction items with
  | nil =>
    rw [List.map_nil, List.mapM_nil]
    exact .pure rfl
  | cons i items ih =>
    have helement : Adds env (fun i => i.arguments.flatMap Doc.marks)
        ((i.map env.child).mapM value) [] (Arrangement.values i.arguments) :=
      (adds_values env i.arguments).last fun ds => rfl
    rw [List.map_cons, List.mapM_cons, List.flatMap_cons, values_append]
    exact helement.append fun i' => ih.last fun is => rfl

mutual

theorem adds_binding : (b : Binding Expr) →
    Adds env (fun b => b.children.flatMap Doc.marks) (Binding.mapM value (b.map env.child)) []
      (Arrangement.values b.children)
  | .assignment m e => by
    refine (adds_value env e).last fun d => ?_
    simp [Binding.children]
  | .nested m bindings => by
    rw [Binding.map, Binding.mapM, Binding.children]
    exact (adds_bindings bindings).last fun bs => rfl
  | .list m items => by
    rw [Binding.map, Binding.mapM, Binding.children]
    refine (adds_elementInits env items).last fun is => ?_
    simp [Binding.children, List.flatMap_assoc]

theorem adds_bindings : (bs : List (Binding Expr)) →
    Adds env (fun bs => (Binding.childrenAll bs).flatMap Doc.marks)
      (Binding.mapAllM value (Binding.mapAll env.child bs)) []
      (Arrangement.values (Binding.childrenAll bs))
  | [] => .pure rfl
  | b :: bs => by
    rw [Binding.mapAll, Binding.mapAllM, Binding.childrenAll, values_append]
    refine (adds_binding b).append fun b' => (adds_bindings bs).last fun bs' => ?_
    simp [Binding.childrenAll]

end

theorem adds_filled {creation : Creation Expr} {items : Rendering (List Item)} {steps : List Step}
    (h : Adds env Item.marksAll items [] steps) :
    Adds env Atoms.marks (filled env (creation.map env.child) items) []
      (Arrangement.values creation.arguments ++ steps) := by
  have hlead : Adds env Atoms.marks (newAtoms env (creation.map env.child)) []
      (Arrangement.values creation.arguments) := by
    have harguments := adds_argumentList env creation.arguments []
    rw [arguments_nil] at harguments
    unfold newAtoms
    dsimp only
    split
    next hempty =>
      have hnone : creation.arguments = [] := by simpa [Creation.map] using hempty
      rw [hnone]
      exact .pure (by simp [Env.typeName])
    · exact harguments.last fun d => by simp [Env.typeName, Doc.marks]
  refine hlead.append fun lead => ?_
  rw [← List.append_nil steps]
  refine h.append fun items => ?_
  cases items with
  | nil => exact .pure (by simp [Item.marksAll])
  | cons item items => exact .pure (by simp [Item.marks_initializer])

theorem adds_memberInit (creation : Creation Expr) (bindings : List (Binding Expr)) :
    Adds env Doc.marks
      (memberInit env (creation.map env.child) (Binding.mapAll env.child bindings)) []
      (Arrangement.values (creation.arguments ++ Binding.childrenAll bindings)) := by
  have hitems : Adds env Item.marksAll
      (do return Item.ofBindings (← Binding.mapAllM value (Binding.mapAll env.child bindings))) []
      (Arrangement.values (Binding.childrenAll bindings)) :=
    (adds_bindings env bindings).last fun bs => Item.marksAll_ofBindings bs
  rw [values_append]
  exact (adds_filled env hitems).last fun as => rfl

theorem adds_listInit (creation : Creation Expr) (items : List (ElementInit Expr)) :
    Adds env Doc.marks (listInit env (creation.map env.child) (items.map (·.map env.child))) []
      (Arrangement.values (creation.arguments ++ items.flatMap (·.arguments))) := by
  have hitems : Adds env Item.marksAll
      (do return (← (items.map (·.map env.child)).mapM (·.mapM value)).map Item.ofElement) []
      (Arrangement.values (items.flatMap (·.arguments))) := by
    refine (adds_elementInits env items).last fun is => ?_
    rw [Item.marksAll_map]
    simp only [Item.marks_ofElement, List.nil_append]
  rw [values_append]
  exact (adds_filled env hitems).last fun as => rfl

theorem adds_new (creation : Creation Expr) :
    Adds env Doc.marks (new env (creation.map env.child)) []
      (if creation.ty.isAnonymous then
        Arrangement.values ((creation.members.zip creation.arguments).map (·.2))
      else Arrangement.arguments creation.arguments
        ((creation.constructor.map (·.parameters)).getD [])) := by
  have hnamed (names : List String) (es : List Expr) :
      Adds env Item.marksAll
        ((names.zip (es.map env.child)).mapM fun p => do return Item.named p.1 (← value p.2)) []
        (Arrangement.values ((names.zip es).map (·.2))) := by
    induction names generalizing es with
    | nil =>
      rw [List.zip_nil_left, List.mapM_nil]
      exact .pure rfl
    | cons name names ih =>
      cases es with
      | nil =>
        rw [List.map_nil, List.zip_nil_right, List.mapM_nil]
        exact .pure rfl
      | cons e es =>
        have hitem : Adds env Item.marks (do return Item.named name (← value (env.child e))) []
            [Arrangement.value e] :=
          (adds_value env e).last fun d => rfl
        rw [List.map_cons, List.zip_cons_cons, List.mapM_cons]
        exact hitem.cons fun item => (ih es).last fun items => rfl
  unfold new
  dsimp only
  split
  next hanonymous =>
    have hty : creation.ty.isAnonymous = true := hanonymous
    rw [if_pos hty]
    exact (hnamed creation.members creation.arguments).last fun items => by
      simp [Doc.marks, Item.marks_initializer]
  next hanonymous =>
    have hty : ¬creation.ty.isAnonymous = true := hanonymous
    rw [if_neg hty]
    exact (adds_argumentList env creation.arguments _).last fun d => by
      simp [Doc.marks, Env.typeName]

theorem adds_newArray (elementType : TypeRef) (es : List Expr) (bounds : Bool) :
    Adds env Doc.marks (newArray env elementType (es.map env.child) bounds) []
      (Arrangement.values es) := by
  have helement (types : List TypeRef) :
      Atoms.marks (if env.settings.leavesElementType types then []
        else Atoms.space ++ env.typeName elementType) = [] := by
    split <;> simp [Env.typeName]
  have hitems (docs : List Doc) : Item.marksAll (docs.map .value) = docs.flatMap Doc.marks := by
    rw [Item.marksAll_map]
    rfl
  cases bounds with
  | true => exact (adds_values env es).last fun docs => by simp [Doc.marks, Env.typeName]
  | false =>
    cases es with
    | nil =>
      unfold newArray values
      rw [List.map_nil, List.mapM_nil]
      exact .pure (by simp [Doc.marks, Env.typeName])
    | cons e es =>
      exact (adds_values env (e :: es)).last fun docs => by
        simp [Doc.marks, Item.marks_initializer, helement, hitems]

end Render

end TreeScribe
