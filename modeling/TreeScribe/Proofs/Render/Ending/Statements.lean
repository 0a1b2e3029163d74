import TreeScribe.Proofs.Render.Ending.Values

/-! How statements, blocks, branches, loops and handlers end. -/
namespace TreeScribe

namespace Render

variable (env : Env)

/-- How statements end that follow what has been written so far. -/
def endingAfter (sofar : DocEnding) (ds : List Doc) : DocEnding :=
  match ds.getLast? with
  | none => sofar
  | some d => .statement d.endsWithJump

theorem endingAfter_cons (sofar : DocEnding) (d : Doc) (ds : List Doc) :
    endingAfter sofar (d :: ds) = endingAfter (.statement d.endsWithJump) ds := by
  unfold endingAfter
  cases ds with
  | nil => rfl
  | cons d' ds =>
    rw [List.getLast?_cons_cons]
    cases h : (d' :: ds).getLast? with
    | none => simp at h
    | some d => rfl

theorem ends_lastStatement {c : Child} {k : DocEnding.Child} (h : ChildEnds c k) (last : Position)
    (afterJump : Bool) :
    Ends (lastStatement last afterJump c) (k.2 (DocEnding.lastMode last afterJump k.1)) := by
  unfold lastStatement DocEnding.lastMode
  rw [h.same]
  split
  · exact h.ends.landing _
  · exact h.ends.inPosition _

theorem ends_statementsFrom (last : Position) {cs : List Child} {ks : List DocEnding.Child}
    (h : ChildrenEnd cs ks) (sofar : DocEnding) :
    Gives (statementsFrom last sofar.endsWithJump cs) fun ds =>
      endingAfter sofar ds = DocEnding.statements last sofar ks ∧ ∀ d ∈ ds, d.atoms ≠ [] := by
  induction h generalizing sofar with
  | nil => exact .pure ⟨rfl, List.forall_mem_nil _⟩
  | @cons c k cs ks hc hcs ih =>
    have hlength : cs.isEmpty = ks.isEmpty := by cases hcs <;> rfl
    -- what follows a statement, which is left out if it is empty
    have hnext (mode : Mode) (d : Doc) (hd : d.ending = k.2 mode) :
        Gives (if d.isEmpty then statementsFrom last sofar.endsWithJump cs
          else do return d.terminated :: (← statementsFrom last d.terminated.endsWithJump cs))
          fun ds => endingAfter sofar ds = DocEnding.statements last
            (if (k.2 mode).isEmpty then sofar else .statement (k.2 mode).endsWithJump) ks ∧
            ∀ d ∈ ds, d.atoms ≠ [] := by
      have hempty : (k.2 mode).isEmpty = d.isEmpty := congrArg DocEnding.isEmpty hd.symm
      have hjump : (k.2 mode).endsWithJump = d.terminated.endsWithJump := by
        rw [← hd]
        unfold Doc.terminated
        split <;> rfl
      rw [hempty, hjump]
      split
      · exact ih sofar
      next hwritten =>
        refine (ih (.statement d.terminated.endsWithJump)).bind fun ds ⟨hds, hne⟩ => .pure ?_
        refine ⟨(endingAfter_cons ..).trans hds, List.forall_mem_cons.mpr ⟨?_, hne⟩⟩
        have hatoms : d.atoms ≠ [] := by simpa [Doc.isEmpty] using hwritten
        unfold Doc.terminated
        split
        · exact hatoms
        · simp
    unfold statementsFrom DocEnding.statements
    dsimp only
    rw [hc.same, hlength]
    split
    · exact ih sofar
    · split
      · exact (ends_lastStatement hc last _).bind (hnext _)
      · exact (hc.ends.inPosition .statement).bind (hnext _)

theorem ending_joinStatements (ty : TypeRef) {declared statements : List Doc}
    (hdeclared : ∀ d ∈ declared, d.atoms ≠ [] ∧ d.endsWithJump = false)
    (hstatements : ∀ d ∈ statements, d.atoms ≠ []) :
    (joinStatements ty declared statements).ending =
      endingAfter { isEmpty := declared.isEmpty, isTerminated := true } statements := by
  have hempty : (joinStatements ty declared statements).isEmpty =
      (declared.isEmpty && statements.isEmpty) := by
    cases declared with
    | nil =>
      cases statements with
      | nil => rfl
      | cons d ds =>
        have hd : d.atoms ≠ [] := hstatements d (List.mem_cons_self ..)
        simp [joinStatements, joined, Doc.isEmpty, hd]
    | cons d ds =>
      have hd : d.atoms ≠ [] := (hdeclared d (List.mem_cons_self ..)).1
      simp [joinStatements, Doc.isEmpty, hd]
  have hjump : (joinStatements ty declared statements).endsWithJump =
      (endingAfter { isEmpty := declared.isEmpty, isTerminated := true } statements).endsWithJump := by
    show (declared ++ statements).getLast?.any (·.endsWithJump) = _
    unfold endingAfter
    rw [List.getLast?_append]
    cases hlast : statements.getLast? with
    | some d => rfl
    | none =>
      cases hdeclaration : declared.getLast? with
      | none => rfl
      | some d => exact (hdeclared d (List.mem_of_getLast? hdeclaration)).2
  unfold Doc.ending
  rw [hempty, hjump]
  unfold endingAfter
  cases hlast : statements.getLast? with
  | none =>
    rw [List.getLast?_eq_none_iff.mp hlast, List.isEmpty_nil, Bool.and_true]
    rfl
  | some d =>
    have hne : statements.isEmpty = false := by
      cases statements with
      | nil => cases hlast
      | cons _ _ => rfl
    rw [hne, Bool.and_false]
    rfl

theorem isEmpty_addToGroup (ty : TypeRef) (name : String) (groups : List (TypeRef × List String)) :
    (addToGroup ty name groups).isEmpty = false := by
  cases groups with
  | nil => rfl
  | cons group groups =>
    unfold addToGroup
    split <;> rfl

theorem isEmpty_declarations (node : Nat) :
    (declarations env node).isEmpty = (env.analysis.blockDeclarations node).isEmpty := by
  have hfold (keys : List VariableKey) (groups : List (TypeRef × List String)) :
      (keys.foldl (fun groups key => addToGroup key.ty (writtenName key.ty key.name) groups)
        groups).isEmpty = (groups.isEmpty && keys.isEmpty) := by
    induction keys generalizing groups with
    | nil => simp
    | cons key keys ih =>
      rw [List.foldl_cons, ih, isEmpty_addToGroup]
      simp
  unfold declarations
  rw [List.isEmpty_map, hfold]
  rfl

theorem ends_blockStatements (node : Nat) {cs : List Child} {ks : List DocEnding.Child}
    (h : ChildrenEnd cs ks) (ty : TypeRef) (role : BlockRole) :
    Ends (blockStatements env node cs ty role) (DocEnding.block env node ks ty role) := by
  have hdeclared : ∀ d ∈ declarations env node, d.atoms ≠ [] ∧ d.endsWithJump = false := by
    intro d hd
    obtain ⟨group, -, rfl⟩ := List.mem_map.mp hd
    exact ⟨by simp, rfl⟩
  have hjump : (declarations env node).getLast?.any (·.endsWithJump) = false := by
    cases hlast : (declarations env node).getLast? with
    | none => rfl
    | some d => exact (hdeclared d (List.mem_of_getLast? hlast)).2
  unfold blockStatements DocEnding.block
  dsimp only
  rw [hjump, ← isEmpty_declarations]
  refine (ends_statementsFrom (role.lastPosition ty) h
    { isEmpty := (declarations env node).isEmpty, isTerminated := true }).bind fun ds ⟨hds, hne⟩ => ?_
  exact .pure ((ending_joinStatements ty hdeclared hne).trans hds)

theorem ends_nestedBlock (node : Nat) (locals : List Variable) {cs : List Child}
    {ks : List DocEnding.Child} (h : ChildrenEnd cs ks) (ty : TypeRef) (returns : Bool) :
    Ends (nestedBlock env node locals cs ty returns)
      (DocEnding.nestedBlock env node locals ks ty returns) := by
  refine (ends_blockStatements env node h ty _).bind fun d hd => .pure ?_
  unfold DocEnding.nestedBlock
  dsimp only
  split
  · exact hd
  · rw [d.ending_braced, hd]

theorem ends_spelledBlock (node : Nat) {cs : List Child} {ks : List DocEnding.Child} (h : ChildrenEnd cs ks)
    (ty : TypeRef) :
    Ends (match env.calls.lookup node with
      | some call => return extractedCall call ty
      | none => do return (← blockStatements env node cs ty .value).braced)
      (match env.calls.lookup node with
      | some _ => {}
      | none => (DocEnding.block env node ks ty .value).braced) := by
  cases env.calls.lookup node with
  | some call => exact .pure (Doc.ending_of_ne_nil (by simp [extractedCall]))
  | none =>
    refine (ends_blockStatements env node h ty .value).bind fun d hd => .pure ?_
    rw [d.ending_braced, hd]

theorem ends_valueBlock (node : Nat) (locals : List Variable) {cs : List Child}
    {ks : List DocEnding.Child} (h : ChildrenEnd cs ks) (ty : TypeRef) :
    Ends (valueBlock env node locals cs ty) (DocEnding.valueBlock env node locals ks ty) := by
  have hspelled := ends_spelledBlock env node h ty
  unfold valueBlock DocEnding.valueBlock
  dsimp only
  cases locals with
  | cons v locals => exact hspelled
  | nil =>
    cases h with
    | nil => exact hspelled
    | cons hc hrest =>
      cases hrest with
      | nil => exact hc.ends.inPosition .value
      | cons _ _ => exact hspelled

theorem ends_ifStatement {c d : Child} {k l : DocEnding.Child} (test : Child) (hc : ChildEnds c k)
    (hd : ChildEnds d l) (ty : TypeRef) (returns : Bool) :
    Ends (ifStatement test c d ty returns) (DocEnding.ifStatement k l returns) := by
  have hlead (condition taken : Doc) (rest : Atoms) :
      Atoms.control "if" ++ Atoms.bracketed " (" ")" condition.atoms ++ Atoms.newline ++
        taken.braced.atoms ++ rest ≠ [] := by
    simp
  refine (hc.ends.body returns).bind fun taken htaken => .after fun condition => ?_
  have hjump : taken.endsWithJump = (k.2 (.body returns)).endsWithJump :=
    congrArg DocEnding.endsWithJump htaken
  unfold DocEnding.ifStatement
  rw [hd.same, ← hjump]
  dsimp only
  by_cases hempty : l.1.isEmpty = true
  · rw [if_pos hempty, hempty]
    exact .pure (Doc.ending_of_ne_nil (by simp))
  · rw [if_neg hempty, Bool.not_eq_true _ |>.mp hempty]
    split
    · refine (hd.ends.chained returns).bind fun other hother => .pure ?_
      rw [← hother]
      exact Doc.ending_of_ne_nil (by simp)
    · refine (hd.ends.body returns).bind fun other hother => .pure ?_
      rw [← hother]
      exact Doc.ending_of_ne_nil (by simp)

theorem ends_label (target : Target) (c : Option Child) (k : Option DocEnding.Child)
    (h : c.isSome = k.isSome) (returns : Bool) :
    Ends (label env target c returns) (DocEnding.label env target k returns) := by
  have hnone : Ends (if env.analysis.isJumpTarget target then
        return { kind := .label, ty := target.ty, isTerminated := true
                 atoms := Atoms.when (env.analysis.isJumpTarget target)
                   (Atoms.labelLine target) }
      else return .absent .label target.ty)
      (if env.analysis.isJumpTarget target then .statement false else .absent) := by
    by_cases hshown : env.analysis.isJumpTarget target = true
    · simp only [hshown, if_true]
      exact .pure (Doc.ending_of_ne_nil (by simp [Atoms.when]))
    · simp only [hshown]
      exact .pure rfl
  unfold label DocEnding.label
  rw [← h]
  cases returns with
  | false => cases c <;> exact hnone
  | true =>
    cases c with
    | none => exact hnone
    | some c =>
      refine .after fun d => .pure (Doc.ending_of_ne_nil ?_)
      simp [Doc.terminated, Doc.returned]

theorem ends_switchCases (returns first : Bool) {cases : List (SwitchCase Child)}
    {kcases : List (SwitchCase DocEnding.Child)}
    (h : List.Forall₂ (fun c k => ChildEnds c.body k.body) cases kcases) :
    Gives (switchCases returns first cases) fun r =>
      r.2 = kcases.all fun k => (k.body.2 (.body returns)).endsWithJump := by
  induction h generalizing first with
  | nil => exact .pure rfl
  | @cons c k _ _ hc _ ih =>
    refine .after fun tests => (hc.ends.body returns).bind fun d hd => ?_
    refine (ih false).bind fun r hr => .pure ?_
    rw [List.all_cons, ← hr, ← hd]
    rfl

theorem ends_switch (node : Nat) (subject : Child) {cases : List (SwitchCase Child)}
    {kcases : List (SwitchCase DocEnding.Child)} {c : Option Child} {k : Option DocEnding.Child}
    (hcases : List.Forall₂ (fun c k => ChildEnds c.body k.body) cases kcases)
    (hdefault : Option.Rel ChildEnds c k) (ty : TypeRef) (returns : Bool) :
    Ends (switch node subject cases c ty returns) (DocEnding.switch kcases k returns) := by
  unfold switch DocEnding.switch
  refine .after fun subject => (ends_switchCases returns true hcases).bind fun r hr => ?_
  rw [← hr]
  cases hdefault with
  | none =>
    refine .pure ?_
    rw [Option.any_none, Bool.and_false]
    exact Doc.ending_of_ne_nil (by simp)
  | some h =>
    refine (h.ends.body returns).bind fun d hd => .pure ?_
    rw [Option.any_some, ← hd]
    exact Doc.ending_of_ne_nil (by simp)

theorem ends_attempt {tried : Child} {ktried : DocEnding.Child} (htried : ChildEnds tried ktried)
    {handlers : List (Handler Child)} {khandlers : List (Handler DocEnding.Child)}
    (hhandlers : List.Forall₂ (fun c k => ChildEnds c.body k.body) handlers khandlers)
    (cleanup fault : Option Child) (ty : TypeRef) (returns : Bool) :
    Ends (attempt env tried handlers cleanup fault ty returns)
      (DocEnding.attempt ktried khandlers returns) := by
  have hall : Gives (handlers.mapM (catchHandler env returns)) fun rs =>
      rs.all (·.2) = khandlers.all fun k => (k.body.2 (.body returns)).endsWithJump := by
    induction hhandlers with
    | nil =>
      rw [List.mapM_nil]
      exact .pure rfl
    | @cons c k _ _ hc _ ih =>
      rw [List.mapM_cons]
      refine Gives.bind (P := fun r => r.2 = (k.body.2 (.body returns)).endsWithJump) ?_ ?_
      · refine (hc.ends.body returns).bind fun d hd => ?_
        have hjump : d.endsWithJump = (k.body.2 (.body returns)).endsWithJump :=
          congrArg DocEnding.endsWithJump hd
        dsimp only
        split
        · exact .after fun f => .pure hjump
        · exact .pure hjump
      · intro r hr
        refine ih.bind fun rs hrs => .pure ?_
        rw [List.all_cons, List.all_cons, hr, hrs]
  unfold attempt DocEnding.attempt
  refine (htried.ends.body returns).bind fun d hd => hall.bind fun rs hrs => ?_
  rw [← hrs, ← hd]
  simp only [pure_bind]
  cases fault with
  | none =>
    cases cleanup with
    | none => exact .pure (Doc.ending_of_ne_nil (by simp))
    | some c => exact .after fun _ => .pure (Doc.ending_of_ne_nil (by simp))
  | some c =>
    refine .after fun _ => ?_
    cases cleanup with
    | none => exact .pure (Doc.ending_of_ne_nil (by simp))
    | some c' => exact .after fun _ => .pure (Doc.ending_of_ne_nil (by simp))

end Render

end TreeScribe
