import TreeScribe.Proofs.Render.Signs.Operators

/-! How calls, members, objects and arrays begin. -/
namespace TreeScribe

open Render Atoms

namespace Render

variable (env : Env)

/-! ### Calls and members -/

theorem starts_indexList (args : List Child) : AlwaysStartsAs (indexList args) .other :=
  .after fun _ => .pure rfl

/-- A call goes on with a point or a bracket after its subject. -/
theorem starts_callAtoms (subject : Atoms) (m : MethodInfo) (args : List Child)
    (ps : List ParameterInfo) :
    Gives (callAtoms env subject m args ps) fun as => as.start = subject.start.or .other := by
  have hcall : Gives (methodCall env subject m args ps) fun as =>
      as.start = subject.start.or .other := by
    refine .after fun list => .pure ?_
    rw [List.append_assoc, List.append_assoc, List.append_assoc]
    exact start_followed _ rfl
  unfold callAtoms
  split
  · exact hcall
  · split
    · refine .pure ?_
      rw [List.append_assoc]
      exact start_followed _ rfl
    · split
      · exact (starts_indexList args).bind fun list hlist => .pure (start_followed _ hlist)
      · split
        next last _ _ =>
          have hlead (lead : Atoms) (h : lead.start = .other) :
              Gives (do let d ← value last
                        return subject ++ lead ++ operator Level.lambda " = " ++ d.atoms)
                fun as => as.start = subject.start.or .other := by
            refine .after fun d => .pure ?_
            rw [List.append_assoc, List.append_assoc]
            refine start_followed _ ?_
            rw [start_append, h]
            rfl
          dsimp only
          split
          · exact (starts_indexList _).bind fun list hlist => hlead _ hlist
          · exact hlead _ rfl
        · exact hcall

section Calls

variable {declared : List Slot} {f : Expr → Start}

theorem starts_concat {args : List Child}
    (h : ∀ c ∈ args, StartsAs declared (value c) (f c.1)) :
    GivesFrom declared (args.mapM (operand · (Level.additive + 1))) fun ds =>
      (joinedBy (operator Level.additive " + ") (ds.map (·.atoms))).start =
        Start.concat (args.map fun c => (c.1, f c.1)) := by
  cases args with
  | nil => exact .pure rfl
  | cons c args =>
    have hc := starts_operand (h c (List.mem_cons_self ..)) (Level.additive + 1)
    rw [List.mapM_cons]
    cases args with
    | nil => exact hc.bind fun d hd => .pure hd
    | cons c' args =>
      refine hc.bind fun d hd => ?_
      rw [List.mapM_cons]
      refine Gives.bind (P := (· ≠ [])) (.after fun _ => .after fun _ => .pure (List.cons_ne_nil _ _))
        fun ds hds => .pure ?_
      obtain ⟨d', ds, rfl⟩ := List.exists_cons_of_ne_nil hds
      show (d.atoms ++ operator Level.additive " + " ++ joinedBy _ _).start = _
      rw [List.append_assoc, start_append, hd]
      rfl

theorem starts_call {receiver : Option Child} (m : MethodInfo) {args : List Child}
    (hreceiver : ∀ c ∈ receiver, StartsAs declared (value c) (f c.1))
    (hargs : ∀ c ∈ args, StartsAs declared (value c) (f c.1)) :
    StartsAs declared (call env receiver m args)
      (Start.call env (receiver.map fun c => (c.1, f c.1)) m (args.map fun c => (c.1, f c.1))) := by
  unfold call Start.call
  dsimp only
  split
  · exact (starts_concat hargs).bind fun ds hds => .pure hds
  · suffices hsubject : GivesFrom declared (receiverOf env receiver m args)
        fun r => r.1.start.or .other = _ from
      hsubject.bind fun r hr => (starts_callAtoms env _ _ _ _).bind fun as has => .pure (has.trans hr)
    unfold receiverOf
    cases receiver with
    | some c => exact (starts_operand (hreceiver c rfl) _).bind fun d hd => .pure (by rw [hd]; rfl)
    | none =>
      cases m.isExtension with
      | false => exact .pure rfl
      | true =>
        cases args with
        | nil => exact .pure rfl
        | cons c args =>
          have hc := hargs c (List.mem_cons_self ..)
          exact (starts_operand hc _).bind fun d hd => .pure (by rw [hd]; rfl)

end Calls

theorem starts_invoke {declared : List Slot} {target : Child} {s : Start}
    (h : StartsAs declared (value target) s) (args : List Child) (ty : TypeRef) :
    StartsAs declared (invoke env target args ty)
      (if target.1.isLambda then .other else (Start.operand (target.1, s) Level.primary).or .other) := by
  unfold invoke
  simp only [pure_bind]
  split
  · exact .after fun _ => .after fun _ => .pure rfl
  · refine starts_followed h _ fun d => .after fun list => .pure ?_
    dsimp only
    rw [List.append_assoc, List.append_assoc]
    exact start_followed _ rfl

theorem starts_memberAccess {declared : List Slot} {f : Expr → Start} {receiver : Option Child}
    (info : MemberInfo) (h : ∀ c ∈ receiver, StartsAs declared (value c) (f c.1)) :
    StartsAs declared (memberAccess env receiver info)
      (Start.member env (receiver.map fun c => (c.1, f c.1)) info) := by
  unfold memberAccess
  cases receiver with
  | none =>
    refine .pure ?_
    dsimp only
    rw [List.append_assoc]
    exact start_typeName env info.declaring rfl
  | some c =>
    have hc := h c rfl
    obtain ⟨⟨node, form⟩, r⟩ := c
    have hplain : StartsAs declared (do
        let d ← operand (.mk node form, r) Level.primary
        return ({ kind := .memberAccess, ty := info.memberType
                  atoms := d.atoms ++ text "." ++ text info.name } : Doc))
        ((Start.operand (.mk node form, f (.mk node form)) Level.primary).or .other) := by
      refine starts_followed hc _ fun d => .pure ?_
      dsimp only
      rw [List.append_assoc]
      exact start_followed _ rfl
    cases form with
    | constant k =>
      obtain ⟨v, ty⟩ := k
      cases v with
      | closure fields =>
        dsimp only [Option.map_some, Node.form, Start.member]
        generalize fields.find? (·.name == info.name) = found
        cases found with
        | none => exact .pure (start_varName _)
        | some field =>
          dsimp only
          split
          · exact .pure (start_literal env _ _)
          · exact .pure (start_varName _)
      | _ => exact hplain
    | _ => exact hplain

/-! ### Objects and arrays -/

theorem starts_new (creation : Creation Child) : AlwaysStartsAs (new env creation) .other := by
  unfold new
  dsimp only
  split <;> exact .after fun _ => .pure rfl

theorem starts_filled (creation : Creation Child) (items : Rendering (List Item)) :
    Gives (filled env creation items) fun as => as.start = .other := by
  have hnew : Gives (newAtoms env creation) fun as => as.start = .other := by
    unfold newAtoms
    dsimp only
    split
    · exact .pure rfl
    · exact .after fun _ => .pure rfl
  refine hnew.bind fun lead hlead => .after fun items => ?_
  split <;> exact .pure (by rw [start_append, hlead, Start.other_or])

theorem starts_newArray (elementType : TypeRef) (expressions : List Child) (bounds : Bool) :
    AlwaysStartsAs (newArray env elementType expressions bounds) .other := by
  refine .after fun docs => ?_
  dsimp only
  split <;> exact .pure rfl

end Render

end TreeScribe
