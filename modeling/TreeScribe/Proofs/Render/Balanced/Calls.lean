import TreeScribe.Proofs.Render.Balanced.Operators

/-! The brackets of calls, members and lists of arguments are closed. -/
namespace TreeScribe

open Render Atoms

namespace Render

variable {env : Env} (henv : env.IsPlain)

include henv

omit henv in
theorem balanced_itemLines {ds : List Doc} (h : ∀ d ∈ ds, d.IsBalanced) : Balanced (itemLines ds) := by
  fun_induction itemLines ds with
  | case1 => exact .nil
  | case2 d => exact .append .newline (h d (List.mem_cons_self ..))
  | case3 d ds _ ih => grind -linarith

omit henv in
theorem balanced_parenthesizedList {ds : List Doc} (h : ∀ d ∈ ds, d.IsBalanced) :
    (parenthesizedList ds).IsBalanced := by
  apply Balanced.parens
  split
  · exact .indented (balanced_itemLines h)
  · exact Doc.balanced_separated (by decide) h

theorem balanced_outputAtoms {c : Child} (h : BalancedChild c) : Gives (outputAtoms env c) Balanced := by
  unfold outputAtoms
  split
  · exact .pure .nil
  · refine .after fun declares => ?_
    split
    · split
      next v hv =>
        have hname : Balanced (env.typeName v.ty) := by
          have htexts := h.texts
          unfold Node.asParameter? at hv
          split at hv
          next hform =>
            cases hv
            rw [hform] at htexts
            exact balanced_typeName henv (allPlain_cons.mp htexts).2
          · cases hv
        split
        · exact .pure (by grind -linarith)
        · exact .pure (by grind -linarith)
      · exact .pure .nil
    · exact .pure .nil

theorem balanced_argument {c : Child} (h : BalancedChild c) (mode : PassingMode) :
    Gives (argument env c mode) Doc.IsBalanced := by
  cases mode with
  | value => exact balanced_value h
  | ref => exact (balanced_value h).bind fun d hd => .pure (by grind -linarith)
  | out =>
    refine (balanced_outputAtoms henv h).bind fun declaring hdeclaring => ?_
    exact (balanced_value h).bind fun d hd => .pure (by grind -linarith)

theorem balanced_arguments {cs : List Child} (h : ∀ c ∈ cs, BalancedChild c) (ps : List ParameterInfo) :
    Gives (arguments env cs ps) fun ds => ∀ d ∈ ds, d.IsBalanced := by
  induction cs generalizing ps with
  | nil => exact .pure (by simp)
  | cons c cs ih =>
    have hc := h c (List.mem_cons_self ..)
    have hrest := ih fun c' hc' => h c' (List.mem_cons_of_mem _ hc')
    have hcons (mode : PassingMode) (ps : List ParameterInfo) :
        Gives (do let d ← argument env c mode; return d :: (← arguments env cs ps))
          fun ds => ∀ d ∈ ds, d.IsBalanced :=
      (balanced_argument henv hc mode).bind fun d hd => (hrest ps).bind fun ds hds =>
        .pure (List.forall_mem_cons.mpr ⟨hd, hds⟩)
    cases ps with
    | nil => exact hcons _ _
    | cons p ps =>
      rw [arguments]
      split
      · exact hc.elements
      · exact hcons _ _

theorem balanced_argumentList {cs : List Child} (h : ∀ c ∈ cs, BalancedChild c) (ps : List ParameterInfo) :
    Gives (argumentList env cs ps) Doc.IsBalanced :=
  (balanced_arguments henv h ps).bind fun _ hds => .pure (balanced_parenthesizedList hds)

omit henv in
theorem balanced_indexList {cs : List Child} (h : ∀ c ∈ cs, BalancedChild c) :
    Gives (indexList cs) Doc.IsBalanced :=
  (balanced_values h).bind fun _ hds => .pure (.brackets (Doc.balanced_separated (by decide) hds))

theorem balanced_genericArguments {m : MethodInfo} (hm : AllPlain m.texts) :
    Balanced (genericArguments env m) := by
  have hargs := (allPlain_append.mp hm).2
  rw [TypeRef.textsAll_eq] at hargs
  unfold genericArguments
  split
  · refine .append (.append (.text (by decide)) (.separated (by decide) ?_)) (.text (by decide))
    refine List.forall_mem_map.mpr fun t ht => balanced_typeName henv ?_
    exact hargs.mono fun s hs => List.mem_flatMap.mpr ⟨t, ht, hs⟩
  · exact .nil

theorem balanced_receiverOf {receiver : Option Child} {m : MethodInfo} (hm : AllPlain m.texts)
    {args : List Child} (hreceiver : ∀ c ∈ receiver, BalancedChild c) (hargs : ∀ c ∈ args, BalancedChild c) :
    Gives (receiverOf env receiver m args) fun r => Balanced r.1 ∧ r.2.1 ⊆ args := by
  have hname : Balanced (env.typeName m.declaring) := balanced_typeName henv (by grind -linarith [MethodInfo.texts])
  unfold receiverOf
  cases receiver with
  | some c =>
    exact (balanced_operand (hreceiver c rfl) _).bind fun d hd => .pure ⟨hd, List.Subset.refl _⟩
  | none =>
    cases m.isExtension with
    | false => exact .pure ⟨hname, List.Subset.refl _⟩
    | true =>
      cases args with
      | nil => exact .pure ⟨hname, List.Subset.refl _⟩
      | cons c args =>
        refine (balanced_operand (hargs c (List.mem_cons_self ..)) _).bind fun d hd => ?_
        exact .pure ⟨hd, List.subset_cons_self ..⟩

omit henv in
theorem isPlain_property {m : MethodInfo} (hm : IsPlain m.name) {property : String}
    (h : m.property? = some property) : IsPlain property := by
  have hafter {lead : String} (h : m.nameAfter? lead = some property) : IsPlain property := by
    unfold MethodInfo.nameAfter? at h
    split at h
    · cases h
      refine hm.of_subset ?_
      rw [String.toList_ofList]
      exact List.drop_subset _ _
    · cases h
  unfold MethodInfo.property? at h
  cases hget : m.nameAfter? "get_" with
  | some getter =>
    rw [hget] at h
    cases h
    exact hafter hget
  | none =>
    rw [hget] at h
    exact hafter h

section Calls

variable {subject : Atoms} (hsubject : Balanced subject) {m : MethodInfo} (hm : AllPlain m.texts)
  {args : List Child} (hargs : ∀ c ∈ args, BalancedChild c)

include hsubject hm hargs

theorem balanced_methodCall (ps : List ParameterInfo) : Gives (methodCall env subject m args ps) Balanced := by
  have hwritten := balanced_genericArguments henv hm
  have hname : IsPlain m.name := by grind -linarith [MethodInfo.texts]
  exact (balanced_argumentList henv hargs ps).bind fun list hlist => .pure (by grind -linarith)

theorem balanced_callAtoms (ps : List ParameterInfo) : Gives (callAtoms env subject m args ps) Balanced := by
  have hcall := balanced_methodCall henv hsubject hm hargs ps
  unfold callAtoms
  split
  · exact hcall
  next property hproperty =>
    have hproperty : IsPlain property := isPlain_property (by grind -linarith [MethodInfo.texts]) hproperty
    split
    · exact .pure (by grind -linarith)
    · split
      · exact (balanced_indexList hargs).bind fun list hlist => .pure (.append hsubject hlist)
      · split
        next last _ hlast =>
          have hdropped : ∀ c ∈ args.dropLast, BalancedChild c :=
            fun c hc => hargs c (List.dropLast_subset _ hc)
          have hset (lead : Atoms) (hlead : Balanced lead) :
              Gives (do let d ← value last
                        return subject ++ lead ++ operator Level.lambda " = " ++ d.atoms) Balanced :=
            (balanced_value (hargs last (List.mem_of_getLast? hlast))).bind fun d hd => .pure (by grind -linarith)
          dsimp only
          split
          · exact (balanced_indexList hdropped).bind fun list hlist => hset _ hlist
          · exact hset _ (by grind -linarith)
        · exact hcall

end Calls

theorem balanced_call {receiver : Option Child} {m : MethodInfo} (hm : AllPlain m.texts) {args : List Child}
    (h : ∀ c ∈ (Form.call receiver m args).children, BalancedChild c) :
    Gives (call env receiver m args) Doc.IsBalanced := by
  have hreceiver : ∀ c ∈ receiver, BalancedChild c :=
    fun c hc => h c (List.mem_append_left _ (Option.mem_toList.mpr hc))
  have hargs : ∀ c ∈ args, BalancedChild c := fun c hc => h c (List.mem_append_right _ hc)
  unfold call
  dsimp only
  split
  · refine Gives.bind (.mapM fun c hc => balanced_operand (hargs c hc) _) fun ds hds => .pure ?_
    exact .joinedBy (.operator _ (by decide)) (List.forall_mem_map.mpr hds)
  · refine (balanced_receiverOf henv hm hreceiver hargs).bind fun r hr => ?_
    have hcall := balanced_callAtoms henv hr.1 hm (fun c hc => hargs c (hr.2 hc)) r.2.2
    exact hcall.bind fun as has => .pure has

theorem balanced_invoke {target : Child} (ht : BalancedChild target) {args : List Child}
    (hargs : ∀ c ∈ args, BalancedChild c) (ty : TypeRef) :
    Gives (invoke env target args ty) Doc.IsBalanced := by
  have hlist := balanced_argumentList henv hargs
  unfold invoke
  simp only [pure_bind]
  split
  · exact (balanced_value ht).bind fun d hd => (hlist _).bind fun list hlist => .pure (by grind -linarith)
  · exact (balanced_operand ht _).bind fun d hd => (hlist _).bind fun list hlist => .pure (by grind -linarith)

theorem balanced_memberAccess {receiver : Option Child} {info : MemberInfo}
    (h : ∀ c ∈ receiver, BalancedChild c) (hinfo : AllPlain info.texts) :
    Gives (memberAccess env receiver info) Doc.IsBalanced := by
  have hname : IsPlain info.name := by grind -linarith [MemberInfo.texts]
  have hdeclaring : Balanced (env.typeName info.declaring) := balanced_typeName henv (by grind -linarith [MemberInfo.texts])
  unfold memberAccess
  dsimp only
  split
  · exact .pure (by grind -linarith)
  next c =>
    have hc := h c rfl
    split
    next fields ty hform =>
      have htexts := hc.texts
      rw [hform] at htexts
      split
      next field hfield =>
        obtain ⟨hty, hvalue⟩ :=
          ConstantValue.allPlain_captured (allPlain_append.mp htexts).2 field (List.mem_of_find?_eq_some hfield)
        split
        · exact .pure (balanced_literal henv hvalue hty)
        · exact .pure (.varName hname)
      · exact .pure (.varName hname)
    · exact (balanced_operand hc _).bind fun d hd => .pure (by grind -linarith)

omit henv in
theorem balanced_index {object : Child} (ho : BalancedChild object) {args : List Child}
    (hargs : ∀ c ∈ args, BalancedChild c) (ty : TypeRef) :
    Gives (index object args ty) Doc.IsBalanced :=
  (balanced_operand ho _).bind fun _ hd => (balanced_indexList hargs).bind fun _ hlist =>
    .pure (.append hd hlist)

end Render

end TreeScribe
