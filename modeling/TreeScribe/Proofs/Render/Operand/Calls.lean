import TreeScribe.Proofs.Render.Operand.Operators

/-! The operators that calls, members, objects and arrays leave outside all brackets. -/
namespace TreeScribe

open Render Atoms

namespace Render

variable (env : Env)

variable {s : Settings} {c : Child}

/-! ### Calls and members -/

theorem top_genericArguments (m : MethodInfo) : Atoms.top (genericArguments env m) = ∅ := by
  unfold genericArguments
  split
  · have hnames : ∀ as ∈ m.genericArgs.map env.typeName, WellLaid as ∧ Atoms.top as = ∅ := by
      intro as has
      obtain ⟨t, -, rfl⟩ := List.mem_map.mp has
      exact ⟨laid_typeName env trivial, top_typeName _ t⟩
    have hlaid : WellLaid (Atoms.separated ", " (m.genericArgs.map env.typeName)) :=
      .separated _ fun as has => (hnames as has).1
    have htop := top_separated ", " hnames
    simp (disch := grind -linarith) [htop]
  · exact top_nil

theorem tops_argumentList {cs : List Child} (h : ∀ c ∈ cs, WellLaidChild c)
    (ps : List ParameterInfo) : Gives (argumentList env cs ps) fun d => d.Tops ∅ := by
  refine (laid_arguments env h (fun _ _ => trivial) ps).bind fun ds hds => .pure ⟨laid_parenthesizedList hds, ?_⟩
  unfold parenthesizedList
  dsimp only
  split
  · exact top_parens (.indented (laid_itemLines hds))
  · exact top_parens (Doc.laid_separated _ hds)

theorem tops_indexList {cs : List Child} (h : ∀ c ∈ cs, WellLaidChild c) :
    Gives (indexList cs) fun d => d.Tops ∅ := by
  refine (laid_values h).bind fun ds hds => .pure ?_
  have hlist := Doc.laid_separated ", " hds
  exact ⟨.bracketed _ _ hlist, top_bracketed hlist _ _⟩

theorem tops_receiverOf {receiver : Option Child} (m : MethodInfo) {args : List Child}
    (hreceiver : ∀ c ∈ receiver, ShownChild s c) (hargs : ∀ c ∈ args, ShownChild s c) :
    Gives (receiverOf env receiver m args) fun r =>
      WellLaid r.1 ∧ (∀ c ∈ r.2.1, ShownChild s c) ∧
        Atoms.top r.1 =
          (Surface.receiver (receiver.map (·.1)) m (args.map (·.1))).1.shown s ∧
        r.2.1.map (·.1) = (Surface.receiver (receiver.map (·.1)) m (args.map (·.1))).2 := by
  unfold receiverOf Surface.receiver
  cases receiver with
  | some c =>
    refine (tops_operand (hreceiver c rfl) _).bind fun d hd => .pure ?_
    exact ⟨hd.laid, hargs, hd.top, rfl⟩
  | none =>
    have hstatic (args : List Child) (hargs : ∀ c ∈ args, ShownChild s c) :
        WellLaid (env.typeName m.declaring) ∧ (∀ c ∈ args, ShownChild s c) ∧
          Atoms.top (env.typeName m.declaring) = Surface.shown s [] ∧
          args.map (·.1) = args.map (·.1) :=
      ⟨laid_typeName env trivial, hargs, by simp [Env.typeName], rfl⟩
    cases m.isExtension with
    | false => exact .pure (hstatic args hargs)
    | true =>
      cases args with
      | nil => exact .pure (hstatic [] hargs)
      | cons c args =>
        refine (tops_operand (hargs c (List.mem_cons_self ..)) _).bind fun d hd => .pure ?_
        exact ⟨hd.laid, fun c' hc => hargs c' (List.mem_cons_of_mem _ hc), hd.top, rfl⟩

section Calls

variable {subject : Atoms} (hsubject : WellLaid subject) {args : List Child}
  (hargs : ∀ c ∈ args, ShownChild s c)

include hsubject hargs

theorem top_methodCall (m : MethodInfo) (ps : List ParameterInfo) :
    Gives (methodCall env subject m args ps) fun as => Atoms.top as = Atoms.top subject := by
  have hgeneric : WellLaid (genericArguments env m) := laid_genericArguments env fun _ _ => trivial
  refine (tops_argumentList env (fun c hc => (hargs c hc).laid) ps).bind fun list hlist => .pure ?_
  simp (disch := grind -linarith) [hlist.top, top_genericArguments]

theorem top_callAtoms (m : MethodInfo) (ps : List ParameterInfo) :
    Gives (callAtoms env subject m args ps) fun as =>
      Atoms.top as = Atoms.top subject ∪ (Surface.setting m (args.map (·.1))).shown s := by
  have hlaid : ∀ c ∈ args, WellLaidChild c := fun c hc => (hargs c hc).laid
  have hcall (hnone : Surface.setValue? m (args.map (·.1)) = none) :
      Gives (methodCall env subject m args ps) fun as =>
        Atoms.top as = Atoms.top subject ∪ (Surface.setting m (args.map (·.1))).shown s := by
    simpa [Surface.setting, hnone] using top_methodCall env hsubject hargs m ps
  unfold callAtoms
  split
  next hproperty => exact hcall (Surface.setValue?_of_none hproperty _)
  next property hproperty =>
    have hsetValue := Surface.setValue?_of_some hproperty (args.map (·.1))
    rw [List.isEmpty_map, List.getLast?_map] at hsetValue
    split
    next hget =>
      have hnone : Surface.setValue? m (args.map (·.1)) = none := by
        rw [hsetValue, hget, Bool.true_or, if_pos rfl]
      refine .pure ?_
      simp (disch := grind -linarith) [Surface.setting, hnone]
    next hget =>
      split
      next hitem =>
        have hnone : Surface.setValue? m (args.map (·.1)) = none := by
          rw [hsetValue, hitem, Bool.or_true, if_pos rfl]
        refine (tops_indexList hlaid).bind fun list hlist => .pure ?_
        simp (disch := grind -linarith) [Surface.setting, hnone, hlist.top]
      next hitem =>
        rw [Bool.eq_false_of_not_eq_true hget, Bool.eq_false_of_not_eq_true hitem, Bool.or_false,
          if_neg Bool.false_ne_true] at hsetValue
        split
        next last hset hlast =>
          have hsome : Surface.setValue? m (args.map (·.1)) = some last.1 := by
            rw [hsetValue, if_pos hset, hlast, Option.map_some]
          have hvalue (lead : Atoms) (hlead : WellLaid lead) (hempty : Atoms.top lead = ∅) :
              Gives (do let d ← value last
                        return subject ++ lead ++ operator Level.lambda " = " ++ d.atoms)
                fun as => Atoms.top as = Atoms.top subject ∪
                  (Surface.setting m (args.map (·.1))).shown s := by
            refine (tops_value (hargs last (List.mem_of_getLast? hlast))).bind fun d hd => .pure ?_
            simp (disch := grind -linarith) [Surface.setting, hsome, hempty, hd.top]
          dsimp only
          split
          · have hdropped : ∀ c ∈ args.dropLast, WellLaidChild c :=
              fun c hc => hlaid c (List.dropLast_subset _ hc)
            exact (tops_indexList hdropped).bind fun list hlist => hvalue _ hlist.laid hlist.top
          · exact hvalue _ (by grind -linarith) (by simp (disch := grind -linarith))
        next hset =>
          -- without a value to set there is none
          refine hcall ?_
          rw [hsetValue]
          split
          next hsetter =>
            cases hlast : args.getLast? with
            | none => rfl
            | some last => exact (hset last hsetter hlast).elim
          · rfl

end Calls

theorem tops_list {parts : Child → Surface} {args : List Child} {ds : List Doc}
    (h : List.Forall₂ (fun c d => Doc.Tops d ((parts c).shown s)) args ds) :
    (∀ as ∈ ds.map (·.atoms), WellLaid as) ∧
      { level | ∃ as ∈ ds.map (·.atoms), level ∈ Atoms.top as } =
        Surface.shown s (args.flatMap parts) := by
  induction h with
  | nil => simp
  | @cons c d args ds hd _ ih =>
    refine ⟨List.forall_mem_cons.mpr ⟨hd.laid, ih.1⟩, ?_⟩
    rw [List.flatMap_cons, Surface.shown_append, ← ih.2, ← hd.top]
    ext level
    simp

theorem top_concat {args : List Child} {ds : List Doc}
    (h : List.Forall₂ (fun c d => Doc.Tops d
      ((Surface.operand c.1 (Level.additive + 1)).shown s)) args ds) :
    Atoms.top (joinedBy (operator Level.additive " + ") (ds.map (·.atoms))) =
      Surface.shown s (args.flatMap (fun c => Surface.operand c.1 (Level.additive + 1)) ++
        if 1 < args.length then [.sign Level.additive] else []) := by
  obtain ⟨hlaid, hparts⟩ := tops_list h
  rw [top_joinedBy (.operator _ _) hlaid, hparts, Surface.shown_append, List.length_map,
    h.length_eq]
  split <;> simp

theorem top_call {receiver : Option Child} (m : MethodInfo) {args : List Child}
    (hreceiver : ∀ c ∈ receiver, ShownChild env.settings c)
    (hargs : ∀ c ∈ args, ShownChild env.settings c) :
    Gives (call env receiver m args) fun d =>
      Atoms.top d.atoms =
        (Surface.call env.settings (receiver.map (·.1)) m (args.map (·.1))).shown env.settings := by
  unfold call Surface.call
  dsimp only
  split
  · refine (Gives.mapM_forall₂ fun c hc => tops_operand (hargs c hc) _).bind fun ds hds => .pure ?_
    simpa [List.flatMap_map] using top_concat hds
  · refine (tops_receiverOf env m hreceiver hargs).bind fun r hr => ?_
    obtain ⟨hlaid, hrest, htop, hmap⟩ := hr
    refine (top_callAtoms env hlaid hrest m _).bind fun as has => .pure ?_
    rw [has, htop, hmap, Surface.shown_append]

theorem top_invoke {target : Child} (ht : ShownChild s target) {args : List Child}
    (hargs : ∀ c ∈ args, WellLaidChild c) (ty : TypeRef) :
    Gives (invoke env target args ty) fun d =>
      Atoms.top d.atoms = Surface.shown s
        (if target.1.isLambda then [] else Surface.operand target.1 Level.primary) := by
  have hjoin (subject : Doc) (parts : Surface) (hsubject : subject.Tops (parts.shown s)) :
      Gives (do
        let list ← argumentList env args []
        return ({ kind := .invoke, ty
                  atoms := subject.atoms ++ text "." ++ methodName "Invoke" ++ list.atoms } : Doc))
        fun d => Atoms.top d.atoms = parts.shown s := by
    have := hsubject.laid
    refine (tops_argumentList env hargs []).bind fun list hlist => .pure ?_
    simp (disch := grind -linarith) [hsubject.top, hlist.top]
  unfold invoke
  simp only [pure_bind]
  split
  · exact (tops_value ht).bind fun d hd => hjoin _ [] (by simpa using hd.parenthesized)
  · exact (tops_operand ht _).bind fun d hd => hjoin d _ hd

theorem top_literal (v : ConstantValue) (ty : TypeRef) : Atoms.top (literal env v ty).atoms = ∅ := by
  show Atoms.top (literalAtoms env v ty) = ∅
  unfold literalAtoms
  split <;> try simp (disch := grind -linarith) [Env.typeName]
  unfold realLiteral
  dsimp only
  split
  · exact top_token _ _
  · split <;> simp (disch := grind -linarith) [Env.typeName]

theorem top_memberAccess {receiver : Option Child} (info : MemberInfo)
    (h : ∀ c ∈ receiver, ShownChild s c) :
    Gives (memberAccess env receiver info) fun d =>
      Atoms.top d.atoms = Surface.shown s ((Form.member (receiver.map (·.1)) info).surface s) := by
  unfold memberAccess
  cases receiver with
  | none =>
    refine .pure ?_
    simp (disch := grind -linarith) [Form.surface, Env.typeName]
  | some c =>
    have hc := h c rfl
    obtain ⟨⟨node, form⟩, r⟩ := c
    have hplain (hclosure : Node.isClosure (.mk node form) = false) :
        Gives (do
          let d ← operand (.mk node form, r) Level.primary
          return ({ kind := .memberAccess, ty := info.memberType
                    atoms := d.atoms ++ text "." ++ text info.name } : Doc))
          fun d => Atoms.top d.atoms =
            Surface.shown s ((Form.member (some (.mk node form)) info).surface s) := by
      refine (tops_operand hc _).bind fun d hd => .pure ?_
      have := hd.laid
      simp (disch := grind -linarith) [Form.surface, hclosure, hd.top]
    cases form with
    | constant k =>
      obtain ⟨v, ty⟩ := k
      cases v with
      | closure fields =>
        have hempty : Surface.shown s ((Form.member (some (Node.mk node
            (.constant ⟨.closure fields, ty⟩))) info).surface s) = ∅ := by
          simp [Form.surface, Node.isClosure, Node.form, ConstantValue.isClosure]
        dsimp only [Option.map_some, Node.form]
        rw [hempty]
        split
        · split
          · exact .pure (top_literal env _ _)
          · exact .pure (top_varName _)
        · exact .pure (top_varName _)
      | _ => exact hplain rfl
    | _ => exact hplain rfl

theorem top_index {object : Child} (ho : ShownChild s object) {args : List Child}
    (hargs : ∀ c ∈ args, WellLaidChild c) (ty : TypeRef) :
    Gives (index object args ty) fun d =>
      Atoms.top d.atoms = (Surface.operand object.1 Level.primary).shown s := by
  refine (tops_operand ho _).bind fun d hd => (tops_indexList hargs).bind fun list hlist => .pure ?_
  rw [top_append hd.laid, hd.top, hlist.top, Set.union_empty]

/-! ### Objects and arrays -/

theorem Item.top_initializer {items : List Item} (h : Item.AreWellLaid items) :
    Atoms.top (Item.initializer items) = ∅ := by
  have hall := Item.laid_writeAll (Item.isLong items) items h
  unfold Item.initializer Item.inBraces
  split
  · exact top_text _
  · split
    · rw [top_append .newline, top_newline, Set.empty_union]
      exact top_bracketed (.append (.indented (.append .newline hall)) .newline) _ _
    · exact top_bracketed hall _ _

section Creation

variable {creation : Creation Child} (h : ∀ c ∈ creation.arguments, WellLaidChild c)

include h

theorem top_new : Gives (new env creation) fun d => Atoms.top d.atoms = ∅ := by
  unfold new
  dsimp only
  split
  · have hitem : ∀ p ∈ creation.members.zip creation.arguments,
        Gives (do return Item.named p.1 (← value p.2)) (Item.IsLaid fun _ => True) :=
      fun p hp => (laid_value (h p.2 (List.of_mem_zip hp).2)).bind fun d hd => .pure hd
    refine (Gives.mapM hitem).bind fun items hitems => .pure ?_
    simp (disch := grind -linarith) [Item.top_initializer (Item.areLaid_of_forall hitems)]
  · refine (tops_argumentList env h _).bind fun list hlist => .pure ?_
    simp (disch := grind -linarith) [hlist.top, Env.typeName]

theorem top_filled {items : Rendering (List Item)} (hitems : Gives items Item.AreWellLaid) :
    Gives (filled env creation items) fun as => Atoms.top as = ∅ := by
  have hnew : Gives (newAtoms env creation) fun as => WellLaid as ∧ Atoms.top as = ∅ := by
    refine (laid_newAtoms env h (fun _ _ => trivial) trivial).and ?_
    unfold newAtoms
    dsimp only
    split
    · exact .pure (by simp (disch := grind -linarith) [Env.typeName])
    · refine (tops_argumentList env h _).bind fun list hlist => .pure ?_
      simp (disch := grind -linarith) [hlist.top, Env.typeName]
  refine hnew.bind fun lead hlead => hitems.bind fun is his => ?_
  split
  · refine .pure ?_
    unfold Atoms.when
    split <;> simp (disch := grind -linarith) [hlead.2]
  · refine .pure ?_
    rw [top_append hlead.1, hlead.2, Item.top_initializer his, Set.union_empty]

theorem top_memberInit {bindings : List (Binding Child)}
    (hbindings : ∀ c ∈ Binding.childrenAll bindings, WellLaidChild c) :
    Gives (memberInit env creation bindings) fun d => Atoms.top d.atoms = ∅ := by
  refine (top_filled env h ?_).bind fun as has => .pure has
  exact (laid_bindings bindings hbindings).bind fun bs hbs => .pure (Item.areLaid_ofBindings bs hbs)

theorem top_listInit {items : List (ElementInit Child)}
    (hitems : ∀ c ∈ items.flatMap (·.arguments), WellLaidChild c) :
    Gives (listInit env creation items) fun d => Atoms.top d.atoms = ∅ := by
  refine (top_filled env h ?_).bind fun as has => .pure has
  refine (laid_elementInits hitems).bind fun is his => .pure (Item.areLaid_of_forall ?_)
  intro item hitem
  obtain ⟨i, hi, rfl⟩ := List.mem_map.mp hitem
  exact Item.isLaid_ofElement (his i hi)

end Creation

theorem top_newArray (elementType : TypeRef) {expressions : List Child} (bounds : Bool)
    (h : ∀ c ∈ expressions, WellLaidChild c) :
    Gives (newArray env elementType expressions bounds) fun d => Atoms.top d.atoms = ∅ := by
  refine (laid_values h).bind fun ds hds => ?_
  have hsizes := Doc.laid_separated ", " hds
  have hitems : Item.AreWellLaid (ds.map .value) := by
    refine Item.areLaid_of_forall fun item hitem => ?_
    obtain ⟨d, hd, rfl⟩ := List.mem_map.mp hitem
    exact hds d hd
  dsimp only
  split
  · refine .pure ?_
    split <;> simp (disch := grind -linarith) [Env.typeName]
  · refine .pure ?_
    by_cases hleaves : env.settings.leavesElementType (expressions.map (·.1.ty)) = true <;>
      simp (disch := grind -linarith) [hleaves, Env.typeName, Item.top_initializer hitems]

end Render

end TreeScribe
