import TreeScribe.Proofs.Render.Alike.Operators

/-! Calls, members and lists of arguments of a tree and its twin. -/
namespace TreeScribe

open Atoms Render

namespace Twins

variable {T : Twins} {d d' : Doc}

section Lists

variable {ds ds' : List Doc} (h : List.Forall₂ T.Part ds ds')
include h

theorem listWraps_eq : listWraps ds = listWraps ds' := by
  have hmulti : ds.map (·.isMultiLine) = ds'.map (·.isMultiLine) := by
    induction h with
    | nil => rfl
    | cons hd _ ih => rw [List.map_cons, List.map_cons, hd.isMultiLine, ih]
  have hshort : ((ds.filter (!·.isMultiLine)).map (·.size)).sum =
      ((ds'.filter (!·.isMultiLine)).map (·.size)).sum := by
    induction h with
    | nil => rfl
    | @cons d d' _ _ hd _ ih =>
      rw [List.map_cons, List.map_cons, List.cons.injEq] at hmulti
      have ih := ih hmulti.2
      rw [List.filter_cons, List.filter_cons, hd.isMultiLine]
      split
      · rw [List.map_cons, List.map_cons, List.sum_cons, List.sum_cons, hd.size, ih]
      · exact ih
  have hlead : ds.dropLast.any (·.isMultiLine) = ds'.dropLast.any (·.isMultiLine) := by
    have hdrop := congrArg (fun bs => bs.dropLast.any id) hmulti
    simpa [← List.map_dropLast, List.any_map] using hdrop
  unfold listWraps
  dsimp only
  rw [hshort, hlead, h.length_eq]

theorem matches_itemLines : Matches T.base (itemLines ds) (itemLines ds') := by
  induction h with
  | nil => exact .nil
  | cons hd hds ih =>
    cases hds with
    | nil => exact .append .newline hd.atoms
    | cons _ _ => exact .append (.append (.append .newline hd.atoms) (.text _)) ih

theorem part_parenthesizedList : T.Part (parenthesizedList ds) (parenthesizedList ds') := by
  refine ⟨⟨rfl, rfl, rfl, rfl, rfl⟩, .parens ?_⟩
  rw [listWraps_eq h]
  split
  · exact .indented (matches_itemLines h)
  · exact matches_separated _ h

end Lists

section Calls

variable {e : Expr} {es : List Expr}

theorem alike_argument (mode : PassingMode) (h : T.AgreesOn (Arrangement.argument e mode)) :
    Alike T.Part (argument T.env (T.child e) mode) (argument T.twin (T.twinOf e) mode) := by
  cases mode with
  | value => exact alike_value h
  | ref =>
    refine (alike_value h).last fun d d' hd =>
      ⟨⟨(Node.kind_relabel ..).symm, (Node.ty_relabel ..).symm, rfl, rfl, rfl⟩, ?_⟩
    exact .append (.append (.keyword _) .space) hd.atoms
  | out =>
    obtain ⟨houtput, hvalue⟩ := AgreesOn.cons_iff.mp h
    have houtput : Alike (Matches T.base) (outputAtoms T.env (T.child e))
      (outputAtoms T.twin (T.twinOf e)) := houtput.one
    refine houtput.bind fun as as' has => (alike_value hvalue).last fun d d' hd =>
      ⟨⟨(Node.kind_relabel ..).symm, (Node.ty_relabel ..).symm, rfl, rfl, rfl⟩, ?_⟩
    exact .append (.append (.append (.keyword _) .space) has) hd.atoms

theorem alike_arguments (ps : List ParameterInfo) (h : T.AgreesOn (Arrangement.arguments es ps)) :
    Alike (List.Forall₂ T.Part) (arguments T.env (es.map T.child) ps)
      (arguments T.twin (es.map T.twinOf) ps) := by
  induction es generalizing ps with
  | nil => exact .pure .nil
  | cons e es ih =>
    have hnext (mode : PassingMode) (ps : List ParameterInfo)
        (h : T.AgreesOn (Arrangement.argument e mode ++ Arrangement.arguments es ps)) :
        Alike (List.Forall₂ T.Part) (do
            let d ← argument T.env (T.child e) mode
            return d :: (← arguments T.env (es.map T.child) ps))
          (do
            let d ← argument T.twin (T.twinOf e) mode
            return d :: (← arguments T.twin (es.map T.twinOf) ps)) := by
      obtain ⟨hone, hrest⟩ := AgreesOn.append_iff.mp h
      exact (alike_argument mode hone).bind fun d d' hd =>
        (ih ps hrest).last fun ds ds' hds => .cons hd hds
    cases ps with
    | nil => exact hnext .value [] h
    | cons p ps =>
      rw [Arrangement.arguments] at h
      rw [List.map_cons, List.map_cons, arguments, arguments, List.isEmpty_map, List.isEmpty_map,
        isElementArray_relabel]
      dsimp only at h ⊢
      split at h
      next hparams =>
        rw [if_pos hparams, if_pos hparams]
        exact h.one
      next hparams =>
        rw [if_neg hparams, if_neg hparams]
        exact hnext p.mode ps h

theorem alike_argumentList (ps : List ParameterInfo) (h : T.AgreesOn (Arrangement.arguments es ps)) :
    Alike T.Part (argumentList T.env (es.map T.child) ps) (argumentList T.twin (es.map T.twinOf) ps) :=
  (alike_arguments ps h).last fun _ _ hds => part_parenthesizedList hds

theorem alike_indexList (h : T.AgreesOn (Arrangement.values es)) :
    Alike T.Part (indexList (es.map T.child)) (indexList (es.map T.twinOf)) :=
  (alike_values h).last fun _ _ hds =>
    ⟨⟨rfl, rfl, rfl, rfl, rfl⟩, .bracketed _ _ (matches_separated _ hds)⟩

theorem matches_genericArguments (m : MethodInfo) :
    Matches T.base (genericArguments T.env m) (genericArguments T.twin m) := by
  show Matches T.base (genericArguments T.env m) (genericArguments T.env m)
  unfold genericArguments
  split
  · refine .append (.append (.text _) (.separated _ ?_)) (.text _)
    rw [List.forall₂_map_left_iff, List.forall₂_map_right_iff, List.forall₂_same]
    exact fun t _ => .typeName _ t
  · exact .nil

theorem alike_callAtoms {subject subject' : Atoms} (hsubject : Matches T.base subject subject')
    (m : MethodInfo) (ps : List ParameterInfo) (h : T.AgreesOn (Arrangement.access m es ps)) :
    Alike (Matches T.base) (callAtoms T.env subject m (es.map T.child) ps)
      (callAtoms T.twin subject' m (es.map T.twinOf) ps) := by
  have hcall (h : T.AgreesOn (Arrangement.arguments es ps)) :
      Alike (Matches T.base) (methodCall T.env subject m (es.map T.child) ps)
        (methodCall T.twin subject' m (es.map T.twinOf) ps) := by
    refine (alike_argumentList ps h).last fun d d' hd => ?_
    exact .append (.append (.append (.append hsubject (.text _)) (.methodName _))
      (matches_genericArguments m)) hd.atoms
  unfold callAtoms
  unfold Arrangement.access at h
  cases hproperty : m.property? with
  | none =>
    rw [hproperty] at h
    exact hcall h
  | some property =>
    rw [hproperty] at h
    dsimp only at h ⊢
    rw [List.isEmpty_map, List.isEmpty_map]
    split at h
    next hget =>
      rw [if_pos hget, if_pos hget]
      exact .pure (.append (.append hsubject (.text _)) (.text _))
    next hget =>
      rw [if_neg hget, if_neg hget]
      split at h
      next hitem =>
        rw [if_pos hitem, if_pos hitem]
        exact (alike_indexList h).last fun d d' hd => .append hsubject hd.atoms
      next hitem =>
        rw [if_neg hitem, if_neg hitem, List.getLast?_map, List.getLast?_map, ← List.map_dropLast,
          ← List.map_dropLast]
        cases hset : m.isSetter with
        | false =>
          rw [hset] at h
          exact hcall h
        | true =>
          rw [hset] at h
          cases hlast : es.getLast? with
          | none =>
            rw [hlast] at h
            exact hcall h
          | some last =>
            rw [hlast] at h
            obtain ⟨hlead, hvalue⟩ := AgreesOn.append_iff.mp h
            have hassign {lead lead' : Atoms} (hlead : Matches T.base lead lead') :
                Alike (Matches T.base) (do
                    let d ← value (T.child last)
                    return subject ++ lead ++ operator Level.lambda " = " ++ d.atoms)
                  (do
                    let d ← value (T.twinOf last)
                    return subject' ++ lead' ++ operator Level.lambda " = " ++ d.atoms) :=
              (alike_value hvalue).last fun d d' hd =>
                .append (.append (.append hsubject hlead) (.operator _ _)) hd.atoms
            dsimp only [Option.map_some]
            split at hlead
            next hindex =>
              rw [if_pos hindex, if_pos hindex]
              exact (alike_indexList hlead).bind fun d d' hd => hassign hd.atoms
            next hindex =>
              rw [if_neg hindex, if_neg hindex]
              exact hassign (.append (.text _) (.text _))

theorem alike_call (receiver : Option Expr) (m : MethodInfo)
    (h : T.AgreesOn (Arrangement.call T.env receiver m es)) :
    Alike T.Part (call T.env (receiver.map T.child) m (es.map T.child))
      (call T.twin (receiver.map T.twinOf) m (es.map T.twinOf)) := by
  unfold call
  unfold Arrangement.call at h
  dsimp only at h ⊢
  rw [settings_env, settings_twin]
  rw [settings_env] at h
  split at h
  next hconcat =>
    rw [if_pos hconcat, if_pos hconcat]
    have hparts : Alike (List.Forall₂ T.Part)
        ((es.map T.child).mapM (operand · (Level.additive + 1)))
        ((es.map T.twinOf).mapM (operand · (Level.additive + 1))) :=
      .mapM fun e he => alike_operand (h.values he) _
    refine hparts.last fun ds ds' hds => ⟨⟨rfl, rfl, rfl, rfl, rfl⟩, .joinedBy (.operator _ _) ?_⟩
    rw [List.forall₂_map_left_iff, List.forall₂_map_right_iff]
    exact hds.imp fun d d' hd => hd.atoms
  next hconcat =>
    rw [if_neg hconcat, if_neg hconcat]
    -- what stands before the point is a child or a type
    have hon (e : Expr) (es : List Expr) (ps : List ParameterInfo)
        (h : T.AgreesOn (Arrangement.value e :: Arrangement.access m es ps)) :
        Alike T.Part (do
            let d ← operand (T.child e) Level.primary
            let as ← callAtoms T.env d.atoms m (es.map T.child) ps
            return { kind := .call, ty := m.closedReturnType, atoms := as })
          (do
            let d ← operand (T.twinOf e) Level.primary
            let as ← callAtoms T.twin d.atoms m (es.map T.twinOf) ps
            return { kind := .call, ty := m.closedReturnType, atoms := as }) := by
      obtain ⟨hvalue, haccess⟩ := AgreesOn.cons_iff.mp h
      exact (alike_operand hvalue _).bind fun d d' hd =>
        (alike_callAtoms hd.atoms m ps haccess).last fun as as' has =>
          ⟨⟨rfl, rfl, rfl, rfl, rfl⟩, has⟩
    have hstatic (ps : List ParameterInfo) (h : T.AgreesOn (Arrangement.access m es ps)) :
        Alike T.Part (do
            let as ← callAtoms T.env (T.env.typeName m.declaring) m (es.map T.child) ps
            return { kind := .call, ty := m.closedReturnType, atoms := as })
          (do
            let as ← callAtoms T.twin (T.twin.typeName m.declaring) m (es.map T.twinOf) ps
            return { kind := .call, ty := m.closedReturnType, atoms := as }) :=
      (alike_callAtoms (matches_typeName m.declaring) m ps h).last fun as as' has =>
        ⟨⟨rfl, rfl, rfl, rfl, rfl⟩, has⟩
    unfold receiverOf
    cases receiver with
    | some e => exact hon e es _ h
    | none =>
      cases hextension : m.isExtension with
      | false =>
        rw [hextension] at h
        exact hstatic _ h
      | true =>
        rw [hextension] at h
        cases es with
        | nil => exact hstatic _ h
        | cons e es => exact hon e es _ h

theorem alike_invoke (ty : TypeRef) (h : T.AgreesOn (Arrangement.values (e :: es))) :
    Alike T.Part (invoke T.env (T.child e) (es.map T.child) ty)
      (invoke T.twin (T.twinOf e) (es.map T.twinOf) ty) := by
  obtain ⟨htarget, hargs⟩ := AgreesOn.cons_iff.mp h
  have harguments : Alike T.Part (argumentList T.env (es.map T.child) [])
      (argumentList T.twin (es.map T.twinOf) []) :=
    alike_argumentList [] (by rw [arguments_nil]; exact hargs)
  have hrest {subject subject' : Doc} (hsubject : T.Part subject subject') :
      Alike T.Part (do
          let list ← argumentList T.env (es.map T.child) []
          return { kind := .invoke, ty
                   atoms := subject.atoms ++ text "." ++ methodName "Invoke" ++ list.atoms })
        (do
          let list ← argumentList T.twin (es.map T.twinOf) []
          return { kind := .invoke, ty
                   atoms := subject'.atoms ++ text "." ++ methodName "Invoke" ++ list.atoms }) :=
    harguments.last fun d d' hd => ⟨⟨rfl, rfl, rfl, rfl, rfl⟩,
      .append (.append (.append hsubject.atoms (.text _)) (.methodName _)) hd.atoms⟩
  unfold invoke
  rw [Node.isLambda_relabel]
  simp only [pure_bind]
  split
  · exact (alike_value htarget).bind fun d d' hd => hrest hd.parenthesized
  · exact (alike_operand htarget _).bind fun d d' hd => hrest hd

theorem alike_memberAccess (receiver : Option Expr) (info : MemberInfo)
    (h : T.AgreesOn (Arrangement.values (receiver.toList.filter (!·.isClosure)))) :
    Alike T.Part (memberAccess T.env (receiver.map T.child) info)
      (memberAccess T.twin (receiver.map T.twinOf) info) := by
  have hdoc {as bs : Atoms} (has : Matches T.base as bs) :
      T.Part { kind := .memberAccess, ty := info.memberType, atoms := as }
        { kind := .memberAccess, ty := info.memberType, atoms := bs } :=
    ⟨⟨rfl, rfl, rfl, rfl, rfl⟩, has⟩
  cases receiver with
  | none => exact .pure (hdoc (.append (.append (matches_typeName _) (.text _)) (.text _)))
  | some e =>
    have hother (h : T.AgreesOn [Arrangement.value e]) :
        Alike T.Part (do
            let d ← operand (T.child e) Level.primary
            return { kind := .memberAccess, ty := info.memberType
                     atoms := d.atoms ++ text "." ++ text info.name })
          (do
            let d ← operand (T.twinOf e) Level.primary
            return { kind := .memberAccess, ty := info.memberType
                     atoms := d.atoms ++ text "." ++ text info.name }) :=
      (alike_operand h _).last fun d d' hd => hdoc (.append (.append hd.atoms (.text _)) (.text _))
    dsimp only [Option.map_some]
    unfold memberAccess
    dsimp only
    rw [Node.form_relabel]
    obtain ⟨node, form⟩ := e
    cases form with
    | constant c =>
      obtain ⟨value, ty⟩ := c
      cases value with
      | closure fields =>
        dsimp only [Node.form, Form.map]
        rw [settings_env, settings_twin]
        split
        · split
          · exact .pure (part_literal _ _)
          · exact .pure (hdoc (.varName _))
        · exact .pure (hdoc (.varName _))
      | _ => exact hother h
    | _ => exact hother h

theorem alike_index (ty : TypeRef) (h : T.AgreesOn (Arrangement.values (e :: es))) :
    Alike T.Part (index (T.child e) (es.map T.child) ty) (index (T.twinOf e) (es.map T.twinOf) ty) := by
  obtain ⟨hobject, hargs⟩ := AgreesOn.cons_iff.mp h
  exact (alike_operand hobject _).bind fun d d' hd => (alike_indexList hargs).last fun list list' hlist =>
    ⟨⟨rfl, rfl, rfl, rfl, rfl⟩, .append hd.atoms hlist.atoms⟩

end Calls

end Twins

end TreeScribe
