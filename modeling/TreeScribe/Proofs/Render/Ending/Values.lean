import TreeScribe.Proofs.Render.Ending.Basic

/-! How values end. -/
namespace TreeScribe

namespace Render

variable (env : Env)

/-! ### Values -/

theorem ends_staticCall (kind : NodeKind) (declaring : TypeRef) (name : String) (ty : TypeRef)
    (args : List Child) : Ends (staticCall env kind declaring name ty args) {} :=
  .after fun _ => .pure (Doc.ending_of_ne_nil (by simp))

theorem ends_operation (op : BinaryOp) (left right : Child) (ty : TypeRef) :
    Ends (operation op left right ty) {} :=
  .after fun _ => .pure (Doc.ending_of_ne_nil (by simp))

theorem ends_binary (op : BinaryOp) (left right : Child) (ty : TypeRef)
    (method : Option MethodInfo) : Ends (binary env op left right ty method) {} := by
  unfold binary
  split
  · exact ends_staticCall env _ _ _ _ _
  · split
    · exact ends_staticCall env _ _ _ _ _
    · split
      · exact .after fun _ => .after fun _ => .pure (Doc.ending_of_ne_nil (by simp))
      · split
        · exact .after fun _ => .pure (Doc.ending_of_ne_nil (by simp [checkedAtoms]))
        · exact ends_operation _ _ _ _

theorem ends_assignment (node : Nat) (op : BinaryOp) (left right : Child) (ty : TypeRef) :
    Ends (assignment env node op left right ty) {} := by
  refine .after fun _ => .after fun _ => ?_
  split
  · exact .after fun _ => .pure (Doc.ending_of_ne_nil (by simp))
  · split
    · exact .after fun _ => .pure (Doc.ending_of_ne_nil (by simp))
    · exact .after fun _ => .pure (Doc.ending_of_ne_nil (by simp))

theorem ends_ternary (test ifTrue ifFalse : Child) (ty : TypeRef) :
    Ends (ternary test ifTrue ifFalse ty) {} := by
  refine .after fun _ => .after fun _ => .after fun _ => .pure (Doc.ending_of_ne_nil ?_)
  split <;> simp [Atoms.indented]

theorem indexList_ne_nil (args : List Child) : Gives (indexList args) (·.atoms ≠ []) :=
  .after fun _ => .pure (by simp)

theorem callAtoms_ne_nil (subject : Atoms) (m : MethodInfo) (args : List Child)
    (parameters : List ParameterInfo) :
    Gives (callAtoms env subject m args parameters) (· ≠ []) := by
  have hcall : Gives (methodCall env subject m args parameters) (· ≠ []) :=
    .after fun _ => .pure (by simp)
  unfold callAtoms
  split
  · exact hcall
  · split
    · exact .pure (by simp)
    · split
      · exact (indexList_ne_nil args).bind fun list hlist => .pure (by simp [hlist])
      · split
        next last _ _ =>
          have hset (lead : Atoms) :
              Gives (do let d ← value last
                        return subject ++ lead ++ Atoms.operator Level.lambda " = " ++ d.atoms)
                (· ≠ []) :=
            .after fun _ => .pure (by simp)
          dsimp only
          split
          · exact .after fun list => hset _
          · exact hset _
        · exact hcall

theorem ends_invoke (target : Child) (args : List Child) (ty : TypeRef) :
    Ends (invoke env target args ty) {} := by
  unfold invoke
  simp only [pure_bind]
  split
  · exact .after fun _ => .after fun _ => .pure (Doc.ending_of_ne_nil (by simp))
  · exact .after fun _ => .after fun _ => .pure (Doc.ending_of_ne_nil (by simp))

theorem ends_new (creation : Creation Child) : Ends (new env creation) {} := by
  unfold new
  dsimp only
  split
  · exact .after fun _ => .pure (Doc.ending_of_ne_nil (by simp))
  · exact .after fun _ => .pure (Doc.ending_of_ne_nil (by simp))

theorem ends_newArray (elementType : TypeRef) (expressions : List Child) (bounds : Bool) :
    Ends (newArray env elementType expressions bounds) {} := by
  refine .after fun _ => ?_
  dsimp only
  split
  · exact .pure (Doc.ending_of_ne_nil (by simp))
  · exact .pure (Doc.ending_of_ne_nil (by simp))

theorem filled_ne_nil (creation : Creation Child) (items : Rendering (List Item)) :
    Gives (filled env creation items) (· ≠ []) := by
  have hlead : Gives (newAtoms env creation) (· ≠ []) := by
    unfold newAtoms
    dsimp only
    split
    · exact .pure (by simp)
    · exact .after fun _ => .pure (by simp)
  refine hlead.bind fun lead hlead => .after fun items => ?_
  split
  · exact .pure (by simp [hlead])
  · exact .pure (by simp [hlead])

theorem ends_memberInit (creation : Creation Child) (bindings : List (Binding Child)) :
    Ends (memberInit env creation bindings) {} :=
  (filled_ne_nil env creation _).bind fun _ hatoms => .pure (Doc.ending_of_ne_nil hatoms)

theorem ends_listInit (creation : Creation Child) (items : List (ElementInit Child)) :
    Ends (listInit env creation items) {} :=
  (filled_ne_nil env creation _).bind fun _ hatoms => .pure (Doc.ending_of_ne_nil hatoms)

theorem ends_lambda (node : Nat) (parameters : List Variable) (body : Child)
    (returnType ty : TypeRef) : Ends (lambda env node parameters body returnType ty) {} := by
  unfold lambda
  dsimp only
  split
  · exact .after fun _ => .pure (Doc.ending_of_ne_nil (by simp))
  · exact .after fun _ => .pure (Doc.ending_of_ne_nil (by simp))

theorem ends_loop (node : Nat) (body : Child) (breakTarget : Option Target) :
    Ends (loop env node body breakTarget) (.statement false) :=
  .after fun _ => .pure (Doc.ending_of_ne_nil (by simp))

theorem ends_jump (kind : JumpKind) (target : Target) (result : Option Child) (ty : TypeRef) :
    Ends (jump kind target result ty) .jump := by
  unfold jump
  dsimp only
  split
  · exact .pure (Doc.ending_of_ne_nil (by simp))
  · exact .pure (Doc.ending_of_ne_nil (by simp))
  · exact .pure (Doc.ending_of_ne_nil (by simp))
  · split
    · exact .after fun d => .pure d.ending_returned
    · exact .pure (Doc.ending_of_ne_nil (by simp))

theorem ends_index (object : Child) (args : List Child) (ty : TypeRef) :
    Ends (index object args ty) {} := by
  refine .after fun d => (indexList_ne_nil args).bind fun list hlist => ?_
  exact .pure (Doc.ending_of_ne_nil (by simp [hlist]))

theorem ends_typeTest (c : Child) (tested : TypeRef) (exact : Bool) :
    Ends (typeTest env c tested exact) {} := by
  unfold typeTest
  split
  · exact .after fun _ => .pure (Doc.ending_of_ne_nil (by simp))
  · exact .after fun _ => .pure (Doc.ending_of_ne_nil (by simp))

theorem ends_extension (name : String) (ty : TypeRef) (display : Option String)
    (operands : List Child) :
    Ends (extension name ty display operands) (DocEnding.extension name display operands.isEmpty) := by
  have htext (kind : NodeKind) (s : String) :
      Doc.ending { kind, ty, atoms := Atoms.text s } = { isEmpty := s.isEmpty } := by
    have hempty : (Atoms.text s).isEmpty = s.isEmpty := by
      rw [Bool.eq_iff_iff]
      simp
    simp [Doc.ending, Doc.isEmpty, hempty]
  unfold extension DocEnding.extension
  split
  · exact .pure (htext _ _)
  · split
    next hoperands =>
      rw [hoperands, Bool.and_true]
      exact .pure (htext _ _)
    next hoperands =>
      rw [Bool.not_eq_true _ |>.mp hoperands, Bool.and_false]
      exact .after fun _ => .pure (Doc.ending_of_ne_nil (by simp))

/-! ### What is made of children -/

/-- All documents of the renderer end as said. -/
structure EndsAs (r : Renderer) (f : Mode → DocEnding) : Prop where
  inPosition : ∀ position, Ends (r.inPosition position) (f (.inPosition position))
  body : ∀ returns, Ends (r.body returns) (f (.body returns))
  chained : ∀ returns, Ends (r.chained returns) (f (.chained returns))
  landing : ∀ returns, Ends (r.landing returns) (f (.landing returns))

/-- A child of a node, and how what is made of it ends. -/
structure ChildEnds (c : Child) (k : DocEnding.Child) : Prop where
  same : c.1 = k.1
  ends : EndsAs c.2 k.2

section Children

variable {c : Child} {k : DocEnding.Child} (h : ChildEnds c k)

include h

theorem ends_unary (op : UnaryOp) (ty : TypeRef) (method : Option MethodInfo) :
    Ends (unary env op (some c) ty method) (DocEnding.unary env op (some k) ty method) := by
  have hvalue : Ends (value c) (DocEnding.value k) := h.ends.inPosition .value
  have hconvert (x : Doc → Rendering Doc) (hx : ∀ d, Ends (x d) {}) :
      Ends (if c.1.ty = ty then value c else do x (← operand c Level.unary))
        (if k.1.ty = ty then DocEnding.value k else {}) := by
    rw [h.same]
    split
    · exact hvalue
    · exact .after hx
  unfold unary DocEnding.unary
  dsimp only
  by_cases hcalls : Node.callsMethod method = true
  · obtain ⟨m, hm⟩ := filter_of_callsMethod hcalls
    rw [hm, if_pos hcalls]
    exact ends_staticCall env _ _ _ _ _
  · rw [filter_of_not_callsMethod hcalls, if_neg hcalls]
    cases op with
    | isTrue => exact hvalue
    | convert | convertChecked | unbox =>
      exact hconvert _ fun d => .pure (Doc.ending_of_ne_nil (by simp))
    | quote =>
      refine hvalue.bind fun d hd => .pure ?_
      rw [← hd]
      cases env.settings.choice .quoteComments with
      | true => exact Doc.ending_of_ne_nil (by simp [Atoms.when])
      | false => rfl
    | throw => exact .after fun d => .pure (Doc.ending_of_ne_nil (by simp))
    | negateChecked => exact .after fun as => .pure (Doc.ending_of_ne_nil (by simp [checkedAtoms]))
    | negate | unaryPlus =>
      refine Gives.bind (P := (· ≠ [])) ?_ fun as has => .pure (Doc.ending_of_ne_nil has)
      unfold signed
      dsimp only
      split <;> exact .after fun d => .pure (by simp)
    | _ => exact .after fun d => .pure (Doc.ending_of_ne_nil (by simp))

theorem ends_memberAccess (info : MemberInfo) :
    Ends (memberAccess env (some c) info) (DocEnding.member env (some k) info) := by
  have hname (kind : NodeKind) (ty : TypeRef) :
      Doc.ending { kind, ty, atoms := Atoms.varName info.name } =
        { isEmpty := info.name.isEmpty } := by
    have hempty : (Atoms.varName info.name).isEmpty = info.name.isEmpty := by
      rw [Bool.eq_iff_iff]
      simp
    simp [Doc.ending, Doc.isEmpty, hempty]
  have hother (c : Child) : Ends (do
      let d ← operand c Level.primary
      return { kind := .memberAccess, ty := info.memberType
               atoms := d.atoms ++ Atoms.text "." ++ Atoms.text info.name }) {} :=
    .after fun d => .pure (Doc.ending_of_ne_nil (by simp))
  unfold memberAccess DocEnding.member
  dsimp only
  rw [← h.same]
  cases c.1.form with
  | constant constant =>
    obtain ⟨value, ty⟩ := constant
    cases value with
    | closure fields =>
      dsimp only
      cases fields.find? (·.name == info.name) with
      | none => exact .pure (hname _ _)
      | some field =>
        dsimp only
        split
        · exact .pure rfl
        · exact .pure (hname _ _)
    | _ => exact hother c
  | _ => exact hother c

end Children

/-- The children of a node, and how what is made of them ends. -/
abbrev ChildrenEnd (cs : List Child) (ks : List DocEnding.Child) : Prop :=
  List.Forall₂ ChildEnds cs ks

theorem ends_call (receiver : Option Child) (m : MethodInfo) {args : List Child}
    {ks : List DocEnding.Child} (h : ChildrenEnd args ks) :
    Ends (call env receiver m args) (if env.settings.writesConcat m then DocEnding.concat ks else {}) := by
  unfold call
  dsimp only
  split
  · cases h with
    | nil => exact .pure rfl
    | @cons c k _ _ hc hrest =>
      cases hrest with
      | nil =>
        -- one string is written as it is, or in parentheses
        have hoperand : Gives (operand c (Level.additive + 1)) fun d =>
            d.isEmpty = (!(k.1.level < Level.additive + 1) && (DocEnding.value k).isEmpty) := by
          refine (hc.ends.inPosition .value).bind fun d hd => .pure ?_
          have hempty : d.isEmpty = (DocEnding.value k).isEmpty := congrArg DocEnding.isEmpty hd
          rw [hc.same]
          by_cases hlevel : k.1.level < Level.additive + 1
          · simp [hlevel, Doc.isEmpty, Doc.parenthesized]
          · simp [hlevel, hempty]
        rw [List.mapM_cons, List.mapM_nil]
        refine Gives.bind (P := fun ds => ∃ d, ds = [d] ∧
          d.isEmpty = (!(k.1.level < Level.additive + 1) && (DocEnding.value k).isEmpty)) ?_ ?_
        · exact hoperand.bind fun d hd => .pure ⟨d, rfl, hd⟩
        · rintro _ ⟨d, rfl, hd⟩
          exact .pure (congrArg (fun b => (⟨b, false, false⟩ : DocEnding)) hd)
      | cons _ _ =>
        rw [List.mapM_cons, List.mapM_cons]
        refine Gives.bind (P := fun ds => ∃ d d' ds', ds = d :: d' :: ds') ?_ ?_
        · refine .after fun d => Gives.bind (P := fun ds => ∃ d' ds', ds = d' :: ds') ?_ ?_
          · exact .after fun d' => .after fun ds' => .pure ⟨d', ds', rfl⟩
          · rintro _ ⟨d', ds', rfl⟩
            exact .pure ⟨d, d', ds', rfl⟩
        · rintro _ ⟨d, d', ds', rfl⟩
          exact .pure (Doc.ending_of_ne_nil (by simp [Atoms.joinedBy]))
  · refine .after fun r => ?_
    exact (callAtoms_ne_nil env _ _ _ _).bind fun as has => .pure (Doc.ending_of_ne_nil has)

end Render

end TreeScribe
