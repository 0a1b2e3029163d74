import TreeScribe.Proofs.Render.Laid.Operators

/-! Calls, members and lists of arguments are well laid. -/
namespace TreeScribe

open Render Atoms

variable {P : TypeRef → Prop}

namespace Render

variable (env : Env)

theorem laid_itemLines {ds : List Doc} (h : ∀ d ∈ ds, d.IsLaid P) : Laid P (itemLines ds) := by
  fun_induction itemLines ds with
  | case1 => exact .nil
  | case2 d => exact .append .newline (h d (List.mem_cons_self ..))
  | case3 d ds _ ih => grind -linarith

theorem laid_parenthesizedList {ds : List Doc} (h : ∀ d ∈ ds, d.IsLaid P) :
    (parenthesizedList ds).IsLaid P := by
  apply Laid.parens
  split
  · exact .indented (laid_itemLines h)
  · exact Doc.laid_separated _ h

theorem laid_outputAtoms {c : Child} (hnames : ∀ t ∈ Named.output env c.1, P t) :
    Gives (outputAtoms env c) (Laid P) := by
  unfold outputAtoms
  split
  · exact .pure .nil
  next slot hslot =>
    refine (gives_claim slot _).bind fun declares hdeclares => ?_
    split
    next hdeclared =>
      split
      next v hv =>
        split
        next hexplicit =>
          have houtput : v.ty ∈ Named.output env c.1 := by
            unfold Named.output
            rw [hexplicit, hslot, Option.any_some, hdeclares hdeclared, hv]
            exact List.mem_singleton_self _
          have hname := hnames _ houtput
          exact .pure (by grind -linarith)
        · exact .pure (by grind -linarith)
      · exact .pure .nil
    · exact .pure .nil

theorem laid_argument {c : Child} (h : LaidChild P c) (hnames : ∀ t ∈ Named.output env c.1, P t)
    (mode : PassingMode) : Gives (argument env c mode) (Doc.IsLaid P) := by
  cases mode with
  | value => exact laid_value h
  | ref => exact (laid_value h).bind fun d hd => .pure (by grind -linarith)
  | out =>
    refine (laid_outputAtoms env hnames).bind fun declaring hdeclaring => ?_
    exact (laid_value h).bind fun d hd => .pure (by grind -linarith)

theorem laid_arguments {cs : List Child} (h : ∀ c ∈ cs, LaidChild P c)
    (hnames : ∀ t ∈ Named.outputs env (cs.map (·.1)), P t) (ps : List ParameterInfo) :
    Gives (arguments env cs ps) fun ds => ∀ d ∈ ds, d.IsLaid P := by
  induction cs generalizing ps with
  | nil => exact .pure (by simp)
  | cons c cs ih =>
    have hc := h c (List.mem_cons_self ..)
    have hfirst := fun t ht => hnames t (List.mem_append_left _ ht)
    have hrest := ih (fun c' hc' => h c' (List.mem_cons_of_mem _ hc'))
      fun t ht => hnames t (List.mem_append_right _ ht)
    have hcons (mode : PassingMode) (ps : List ParameterInfo) :
        Gives (do let d ← argument env c mode; return d :: (← arguments env cs ps))
          fun ds => ∀ d ∈ ds, d.IsLaid P :=
      (laid_argument env hc hfirst mode).bind fun d hd => (hrest ps).bind fun ds hds =>
        .pure (List.forall_mem_cons.mpr ⟨hd, hds⟩)
    cases ps with
    | nil => exact hcons _ _
    | cons p ps =>
      rw [arguments]
      split
      · exact hc.elements
      · exact hcons _ _

theorem laid_argumentList {cs : List Child} (h : ∀ c ∈ cs, LaidChild P c)
    (hnames : ∀ t ∈ Named.outputs env (cs.map (·.1)), P t) (ps : List ParameterInfo) :
    Gives (argumentList env cs ps) (Doc.IsLaid P) :=
  (laid_arguments env h hnames ps).bind fun _ hds => .pure (laid_parenthesizedList hds)

theorem laid_indexList {cs : List Child} (h : ∀ c ∈ cs, LaidChild P c) :
    Gives (indexList cs) (Doc.IsLaid P) :=
  (laid_values h).bind fun _ hds => .pure (.bracketed _ _ (Doc.laid_separated _ hds))

theorem laid_genericArguments {m : MethodInfo} (hnames : ∀ t ∈ Named.genericArgs env.settings m, P t) :
    Laid P (genericArguments env m) := by
  unfold Named.genericArgs at hnames
  unfold genericArguments
  split
  next hwritten =>
    rw [if_pos hwritten] at hnames
    refine .append (.append (.text _) (.separated _ fun as has => ?_)) (.text _)
    obtain ⟨t, ht, rfl⟩ := List.mem_map.mp has
    exact laid_typeName env (hnames t ht)
  · exact .nil

theorem laid_receiverOf {receiver : Option Child} (m : MethodInfo) {args : List Child}
    (hreceiver : ∀ c ∈ receiver, LaidChild P c) (hargs : ∀ c ∈ args, LaidChild P c)
    (hname : ∀ t ∈ Named.receiver (receiver.map (·.1)) m (args.map (·.1)), P t) :
    Gives (receiverOf env receiver m args) fun r => Laid P r.1 ∧ r.2.1 ⊆ args := by
  unfold Named.receiver at hname
  unfold receiverOf
  cases receiver with
  | some c =>
    exact (laid_operand (hreceiver c rfl) _).bind fun d hd => .pure ⟨hd, List.Subset.refl _⟩
  | none =>
    cases hextension : m.isExtension with
    | false =>
      rw [hextension] at hname
      exact .pure ⟨laid_typeName env (hname _ (List.mem_singleton_self _)), List.Subset.refl _⟩
    | true =>
      rw [hextension] at hname
      cases args with
      | nil => exact .pure ⟨laid_typeName env (hname _ (List.mem_singleton_self _)), List.Subset.refl _⟩
      | cons c args =>
        refine (laid_operand (hargs c (List.mem_cons_self ..)) _).bind fun d hd => ?_
        exact .pure ⟨hd, List.subset_cons_self ..⟩

section Calls

variable {subject : Atoms} (hsubject : Laid P subject) {args : List Child}
  (hargs : ∀ c ∈ args, LaidChild P c) (houtputs : ∀ t ∈ Named.outputs env (args.map (·.1)), P t)
  {m : MethodInfo} (hgeneric : ∀ t ∈ Named.genericArgs env.settings m, P t)

include hsubject hargs houtputs hgeneric

theorem laid_methodCall (ps : List ParameterInfo) :
    Gives (methodCall env subject m args ps) (Laid P) := by
  have hwritten := laid_genericArguments env hgeneric
  exact (laid_argumentList env hargs houtputs ps).bind fun list hlist => .pure (by grind -linarith)

theorem laid_callAtoms (ps : List ParameterInfo) :
    Gives (callAtoms env subject m args ps) (Laid P) := by
  have hcall := laid_methodCall env hsubject hargs houtputs hgeneric ps
  unfold callAtoms
  split
  · exact hcall
  · split
    · exact .pure (by grind -linarith)
    · split
      · exact (laid_indexList hargs).bind fun list hlist => .pure (.append hsubject hlist)
      · split
        next last _ hlast =>
          have hdropped : ∀ c ∈ args.dropLast, LaidChild P c :=
            fun c hc => hargs c (List.dropLast_subset _ hc)
          have hset (lead : Atoms) (hlead : Laid P lead) :
              Gives (do let d ← value last
                        return subject ++ lead ++ operator Level.lambda " = " ++ d.atoms) (Laid P) :=
            (laid_value (hargs last (List.mem_of_getLast? hlast))).bind fun d hd =>
              .pure (by grind -linarith)
          dsimp only
          split
          · exact (laid_indexList hdropped).bind fun list hlist => hset _ hlist
          · exact hset _ (by grind -linarith)
        · exact hcall

end Calls

theorem laid_call {receiver : Option Child} {m : MethodInfo} {args : List Child}
    (h : ∀ c ∈ (Form.call receiver m args).written env.settings (·.1.isClosure), LaidChild P c)
    (hnames : ∀ t ∈ Named.call env.settings (receiver.map (·.1)) m (args.map (·.1)), P t)
    (houtputs : ∀ t ∈ Named.outputs env (args.map (·.1)), P t) :
    Gives (call env receiver m args) (Doc.IsLaid P) := by
  unfold Form.written at h
  unfold Named.call at hnames
  unfold call
  dsimp only at h ⊢
  split
  next hconcat =>
    rw [if_pos hconcat] at h
    refine Gives.bind (.mapM fun c hc => laid_operand (h c hc) _) fun ds hds => .pure ?_
    refine .joinedBy (.operator _ _) fun as has => ?_
    obtain ⟨d, hd, rfl⟩ := List.mem_map.mp has
    exact hds d hd
  next hconcat =>
    simp only [if_neg hconcat, List.mem_append] at h hnames
    have hreceiver : ∀ c ∈ receiver, LaidChild P c := fun c hc => h c (.inl (Option.mem_toList.mpr hc))
    have hargs : ∀ c ∈ args, LaidChild P c := fun c hc => h c (.inr hc)
    have hsubject := laid_receiverOf env m hreceiver hargs fun t ht => hnames t (.inl ht)
    refine hsubject.bind fun r hr => ?_
    have houtputs : ∀ t ∈ Named.outputs env (r.2.1.map (·.1)), P t := fun t ht =>
      houtputs t (Named.outputs_subset env (List.map_subset _ hr.2) ht)
    have hcall := laid_callAtoms env hr.1 (fun c hc => hargs c (hr.2 hc)) houtputs
      (fun t ht => hnames t (.inr ht)) r.2.2
    exact hcall.bind fun as has => .pure has

theorem laid_invoke {target : Child} (ht : LaidChild P target) {args : List Child}
    (hargs : ∀ c ∈ args, LaidChild P c) (hnames : ∀ t ∈ Named.outputs env (args.map (·.1)), P t)
    (ty : TypeRef) : Gives (invoke env target args ty) (Doc.IsLaid P) := by
  have hlist := laid_argumentList env hargs hnames
  unfold invoke
  simp only [pure_bind]
  split
  · exact (laid_value ht).bind fun d hd => (hlist _).bind fun list hlist => .pure (by grind -linarith)
  · exact (laid_operand ht _).bind fun d hd => (hlist _).bind fun list hlist => .pure (by grind -linarith)

theorem laid_memberAccess {receiver : Option Child} {info : MemberInfo}
    (h : ∀ c ∈ receiver, c.1.isClosure = false → LaidChild P c)
    (hnames : ∀ t ∈ Named.member env.settings (receiver.map (·.1)) info, P t) :
    Gives (memberAccess env receiver info) (Doc.IsLaid P) := by
  unfold memberAccess
  dsimp only
  split
  · have hname : P info.declaring := hnames _ (List.mem_singleton_self _)
    exact .pure (by grind -linarith)
  next c =>
    simp only [Named.member, Option.map_some] at hnames
    split
    next fields ty hform =>
      rw [hform] at hnames
      split
      next field hfield =>
        split
        next hvalues =>
          simp only [Named.captured, if_pos hvalues, hfield, Option.map_some, Option.getD_some] at hnames
          exact .pure (laid_literal env hnames)
        · exact .pure (.varName _)
      · exact .pure (.varName _)
    next hform =>
      have hopen : c.1.isClosure = false := by
        unfold Node.isClosure
        split
        next constant hconstant =>
          obtain ⟨value, ty⟩ := constant
          cases value with
          | closure fields => exact absurd hconstant (hform fields ty)
          | _ => rfl
        · rfl
      exact (laid_operand (h c rfl hopen) _).bind fun d hd => .pure (by grind -linarith)

theorem laid_index {object : Child} (ho : LaidChild P object) {args : List Child}
    (hargs : ∀ c ∈ args, LaidChild P c) (ty : TypeRef) :
    Gives (index object args ty) (Doc.IsLaid P) :=
  (laid_operand ho _).bind fun _ hd => (laid_indexList hargs).bind fun _ hlist =>
    .pure (.append hd hlist)

end Render

end TreeScribe
