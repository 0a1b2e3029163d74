import TreeScribe.Proofs.Render.Arrangement.Marks

/-! The pieces of blocks, lambdas, branches, loops and handlers. -/
namespace TreeScribe

namespace Render

open Arrangement

variable (env : Env)

theorem marks_followed (previous : Doc) (ds : List Doc) :
    (followed previous ds).marks = ds.flatMap Doc.marks := by
  induction ds generalizing previous with
  | nil => rfl
  | cons d ds ih => simp [followed, ih, Doc.marks]

theorem marks_followedDeclarations (previous : Doc) (statements declared : List Doc) :
    (followedDeclarations previous statements declared).marks =
      (declared ++ statements).flatMap Doc.marks := by
  induction declared generalizing previous with
  | nil =>
    cases statements with
    | nil => rfl
    | cons d ds => simp [followedDeclarations, marks_followed, Doc.marks]
  | cons d ds ih => simp [followedDeclarations, ih, Doc.marks]

theorem marks_joinStatements (ty : TypeRef) (declared statements : List Doc) :
    (joinStatements ty declared statements).marks = (declared ++ statements).flatMap Doc.marks := by
  cases declared with
  | nil =>
    cases statements with
    | nil => rfl
    | cons d ds => simp [joinStatements, joined, marks_followed, Doc.marks]
  | cons d ds => simp [joinStatements, marks_followedDeclarations, Doc.marks]

theorem marks_declarations (node : Nat) : (declarations env node).flatMap Doc.marks = [] := by
  rw [List.flatMap_eq_nil_iff]
  intro d hd
  obtain ⟨group, -, rfl⟩ := List.mem_map.mp hd
  simp [Doc.marks, Env.typeName]

theorem adds_lastStatement (last : Position) (afterJump : Bool) (e : Expr) :
    Adds env Doc.marks (lastStatement last afterJump (env.child e)) []
      [.one (.child (DocEnding.lastMode last afterJump e) e)] := by
  unfold lastStatement DocEnding.lastMode
  by_cases hlabel : (last == .returning && isLabel e) = true
  · rw [if_pos hlabel]
    exact (if_pos hlabel).symm ▸ adds_landing env _ e
  · rw [if_neg hlabel]
    exact (if_neg hlabel).symm ▸ adds_inPosition env last e

variable {env} in
theorem adds_statementsFrom (last : Position) (afterJump : Bool) {es : List Expr}
    (h : ∀ e ∈ es, env.EndsWell e) :
    Adds env (List.flatMap Doc.marks) (statementsFrom last afterJump (es.map env.child)) []
      (Arrangement.statements env last afterJump es) := by
  induction es generalizing afterJump with
  | nil => exact .pure rfl
  | cons e es ih =>
    have hes (afterJump : Bool) := ih afterJump fun e' he => h e' (List.mem_cons_of_mem _ he)
    -- an empty statement has no marks, so that it makes no difference that it is left out
    have hnext {x : Rendering Doc} {mode : Mode}
        (hx : Adds env Doc.marks x [] [.one (.child mode e)]) (hends : Ends x (env.ending e mode)) :
        Adds env (List.flatMap Doc.marks) (do
          let d ← x
          if d.isEmpty then statementsFrom last afterJump (es.map env.child)
          else do
            return d.terminated ::
              (← statementsFrom last d.terminated.endsWithJump (es.map env.child))) []
          (.one (.child mode e) :: Arrangement.statements env last
            (if (env.ending e mode).isEmpty then afterJump else (env.ending e mode).endsWithJump)
            es) := by
      refine hx.append_of hends fun d hd => ?_
      have hempty : (env.ending e mode).isEmpty = d.isEmpty := congrArg DocEnding.isEmpty hd.symm
      have hjump : (env.ending e mode).endsWithJump = d.terminated.endsWithJump := by
        rw [← hd]
        unfold Doc.terminated
        split <;> rfl
      rw [hempty, hjump]
      split
      next hwritten =>
        have hmarks : d.marks = [] := by
          unfold Doc.marks
          rw [List.isEmpty_iff.mp hwritten]
          rfl
        rw [hmarks]
        exact hes afterJump
      · exact (hes _).last fun ds => by simp
    have hwell : ChildEnds (env.child e) (e, env.ending e) := ⟨rfl, h e (List.mem_cons_self ..)⟩
    show Adds env _ (if e.isEmpty then statementsFrom last afterJump (es.map env.child)
      else if (es.map env.child).isEmpty then _ else _) [] (Arrangement.statements env last afterJump (e :: es))
    rw [List.isEmpty_map, Arrangement.statements]
    split
    · exact hes afterJump
    · split
      · exact hnext (adds_lastStatement env last afterJump e) (ends_lastStatement hwell last afterJump)
      · exact hnext (adds_inPosition env .statement e) (hwell.ends.inPosition .statement)

section Blocks

variable {env} {expressions : List Expr} (h : ∀ e ∈ expressions, env.EndsWell e)

include h

theorem adds_blockStatements (node : Nat) (ty : TypeRef) (role : BlockRole) :
    Adds env Doc.marks (blockStatements env node (expressions.map env.child) ty role) []
      (Arrangement.block env expressions ty role) := by
  have hjump : (declarations env node).getLast?.any (·.endsWithJump) = false := by
    cases hlast : (declarations env node).getLast? with
    | none => rfl
    | some d =>
      obtain ⟨group, -, rfl⟩ := List.mem_map.mp (List.mem_of_getLast? hlast)
      rfl
  unfold blockStatements Arrangement.block
  dsimp only
  rw [hjump]
  refine (adds_statementsFrom _ false h).last fun ds => ?_
  rw [marks_joinStatements, List.flatMap_append, marks_declarations]

theorem adds_nestedBlock (node : Nat) (locals : List Variable) (ty : TypeRef) (returns : Bool) :
    Adds env Doc.marks (nestedBlock env node locals (expressions.map env.child) ty returns) []
      (Arrangement.block env expressions ty (BlockRole.ofBody returns)) := by
  refine (adds_blockStatements h node ty _).last fun d => ?_
  split <;> simp

theorem adds_spelledBlock (node : Nat) (ty : TypeRef) :
    Adds env Doc.marks (match env.calls.lookup node with
      | some call => return extractedCall call ty
      | none => do return (← blockStatements env node (expressions.map env.child) ty .value).braced) []
      (if (env.calls.lookup node).isSome then [] else
        Arrangement.block env expressions ty .value) := by
  cases env.calls.lookup node with
  | some call =>
    refine .pure ?_
    simp [extractedCall, Doc.marks, List.flatMap_map]
  | none => exact (adds_blockStatements h node ty .value).last fun d => by simp

theorem adds_valueBlock (node : Nat) (locals : List Variable) (ty : TypeRef) :
    Adds env Doc.marks (valueBlock env node locals (expressions.map env.child) ty) []
      (Arrangement.valueBlock env node locals expressions ty) := by
  have hspelled := adds_spelledBlock h node ty
  unfold valueBlock Arrangement.valueBlock
  cases locals with
  | cons v locals => exact hspelled
  | nil =>
    cases expressions with
    | nil => exact hspelled
    | cons e expressions =>
      cases expressions with
      | nil => exact adds_value env e
      | cons _ _ => exact hspelled

end Blocks

theorem marks_lambdaParameters (node : Nat) (parameters : List Variable) :
    (lambdaParameters env node parameters).marks = [] := by
  have hinner (typed : Bool) : Atoms.marks (Atoms.separated ", "
      (parameters.map (lambdaParameter env node typed))) = [] := by
    rw [Atoms.marks_separated, List.flatMap_map, List.flatMap_eq_nil_iff]
    intro v _
    simp [lambdaParameter, Env.typeName]
  unfold lambdaParameters
  dsimp only
  split
  · rw [Atoms.marks_parens, hinner]
  · exact hinner _

theorem adds_lambda (node : Nat) (parameters : List Variable) (e : Expr) (returnType ty : TypeRef) :
    Adds env Doc.marks (lambda env node parameters (env.child e) returnType ty) []
      (enclosed node
        [if e.rendersAsStatements then body (!returnType.isVoid) e else Arrangement.value e]) := by
  have hbraced (d : Doc) : d.braced.atoms.marks = d.marks := Doc.marks_braced d
  show Adds env Doc.marks (if e.rendersAsStatements then _ else _) [] _
  refine .note ?_
  by_cases hstatements : e.rendersAsStatements = true
  · rw [if_pos hstatements, if_pos hstatements]
    exact (adds_body env _ e).cons fun d => .note (.pure (by
      simp [Doc.marks, marks_lambdaParameters, hbraced]))
  · rw [if_neg hstatements, if_neg hstatements]
    exact (adds_value env e).cons fun d => .note (.pure (by
      simp [Doc.marks, marks_lambdaParameters]))

theorem adds_ifStatement (test ifTrue ifFalse : Expr) (ty : TypeRef) (returns : Bool) :
    Adds env Doc.marks
      (ifStatement (env.child test) (env.child ifTrue) (env.child ifFalse) ty returns) []
      (Arrangement.ifStatement test ifTrue ifFalse returns) := by
  have hbraced (d : Doc) : d.braced.atoms.marks = d.atoms.marks := Doc.marks_braced d
  refine (adds_body env returns ifTrue).swapped (adds_value env test) fun taken condition => ?_
  dsimp only [Env.child]
  split
  · exact .pure (by simp [Doc.marks, hbraced])
  · split
    · exact (adds_chained env returns ifFalse).last fun other => by simp [Doc.marks, hbraced]
    · exact (adds_body env returns ifFalse).last fun other => by simp [Doc.marks, hbraced]

theorem adds_loop (node : Nat) (e : Expr) (breakTarget : Option Target) :
    Adds env Doc.marks (loop env node (env.child e) breakTarget) []
      (enclosed node [body false e] ++ landing env breakTarget) := by
  have hbraced (d : Doc) : d.braced.atoms.marks = d.atoms.marks := Doc.marks_braced d
  refine .note ((adds_body env false e).cons fun d => .note ?_)
  unfold landing
  cases breakTarget.filter env.analysis.isJumpTarget with
  | none => exact .pure (by simp [Doc.marks, hbraced])
  | some t => exact .note (.pure (by simp [Doc.marks, hbraced]))

theorem adds_jump (kind : JumpKind) (target : Target) (result : Option Expr) (ty : TypeRef) :
    Adds env Doc.marks (jump kind target (result.map env.child) ty) []
      (if kind = .return then Arrangement.values result.toList else []) := by
  cases kind with
  | goto | «break» | «continue» => exact .pure (by simp [Doc.marks])
  | «return» =>
    cases result with
    | none => exact .pure (by simp [Doc.marks])
    | some e => exact (adds_value env e).last fun d => by simp

theorem adds_label (target : Target) (defaultValue : Option Expr) (returns : Bool) :
    Adds env Doc.marks (label env target (defaultValue.map env.child) returns) []
      (Arrangement.label env target defaultValue returns) := by
  have hreturned (d : Doc) : d.returned.terminated.atoms.marks = d.marks := by
    rw [← Doc.marks, Doc.marks_terminated, Doc.marks_returned]
  unfold Render.label Arrangement.label landing
  by_cases hshown : env.analysis.isJumpTarget target = true
  · have htarget : (some target).filter env.analysis.isJumpTarget = some target := by
      simp [Option.filter, hshown]
    have hnone : Adds env Doc.marks (Pure.pure
        { kind := .label, ty := target.ty, isTerminated := true
          atoms := Atoms.when true (Atoms.labelLine target) }) [] [note (.label target)] :=
      .note (.pure (by simp [Doc.marks]))
    rw [htarget, hshown]
    cases defaultValue with
    | none => cases returns <;> exact hnone
    | some e =>
      cases returns with
      | false => exact hnone
      | true =>
        refine .note ((adds_value env e).last fun d => ?_)
        simp [Doc.marks, hreturned]
  · have htarget : (some target).filter env.analysis.isJumpTarget = none := by
      simp [Option.filter, hshown]
    have hnone : Adds env Doc.marks (Pure.pure (Doc.absent .label target.ty)) [] [] := .pure rfl
    rw [htarget, Bool.not_eq_true _ |>.mp hshown]
    cases defaultValue with
    | none => cases returns <;> exact hnone
    | some e =>
      cases returns with
      | false => exact hnone
      | true =>
        refine (adds_value env e).last fun d => ?_
        simp [Doc.marks, hreturned]

theorem marks_caseBody (d : Doc) : (caseBody d).marks = d.marks := by
  simp [caseBody, Doc.marks]

theorem adds_switchCases (returns first : Bool) (cases : List (SwitchCase Expr)) :
    Adds env (fun r => r.1.marks) (switchCases returns first (cases.map (·.map env.child))) []
      (cases.flatMap fun c => Arrangement.values c.tests ++ [body returns c.body]) := by
  induction cases generalizing first with
  | nil => exact .pure rfl
  | cons c cases ih =>
    rw [List.flatMap_cons, List.append_assoc]
    refine (adds_values env c.tests).append fun tests => ?_
    refine (adds_body env returns c.body).cons fun d => (ih false).last fun r => ?_
    have htests : (tests.flatMap fun t => t.atoms.marks) = tests.flatMap Doc.marks := rfl
    simp [htests, marks_caseBody]

theorem adds_switch (node : Nat) (subject : Expr) (cases : List (SwitchCase Expr))
    (defaultBody : Option Expr) (ty : TypeRef) (returns : Bool) :
    Adds env Doc.marks (switch node (env.child subject) (cases.map (·.map env.child))
        (defaultBody.map env.child) ty returns) []
      (Arrangement.switch node subject cases defaultBody returns) := by
  unfold Arrangement.switch Arrangement.enclosed
  rw [List.cons_append, List.append_assoc]
  refine (adds_value env subject).cons fun d => .note ?_
  refine (adds_switchCases env returns true cases).append fun r => ?_
  cases defaultBody with
  | none => exact .note (.pure (by simp [Doc.marks]))
  | some e =>
    exact (adds_body env returns e).cons fun d => .note (.pure (by simp [Doc.marks, marks_caseBody]))

theorem marks_catchAtoms (h : Handler Child) : (catchAtoms env h).marks = [] := by
  unfold catchAtoms
  dsimp only
  split
  · simp [Env.typeName]
  · split <;> simp [Env.typeName]

theorem adds_catchHandler (returns : Bool) (h : Handler Expr) :
    Adds env (fun r => r.1.marks) (catchHandler env returns (h.map env.child)) []
      (Arrangement.handler returns h) := by
  have hbraced (d : Doc) : d.braced.atoms.marks = d.atoms.marks := Doc.marks_braced d
  obtain ⟨test, caught, filter, handlerBody⟩ := h
  unfold catchHandler
  cases filter with
  | none =>
    refine (adds_body env returns handlerBody).last fun d => ?_
    simp [marks_catchAtoms, hbraced, Doc.marks]
  | some e =>
    refine (adds_body env returns handlerBody).swapped (adds_value env e) fun d f => .pure ?_
    simp [marks_catchAtoms, hbraced, Doc.marks]

theorem adds_attempt (tried : Expr) (handlers : List (Handler Expr)) (cleanup fault : Option Expr)
    (ty : TypeRef) (returns : Bool) :
    Adds env Doc.marks (attempt env (env.child tried) (handlers.map (·.map env.child))
        (cleanup.map env.child) (fault.map env.child) ty returns) []
      (Arrangement.attempt tried handlers cleanup fault returns) := by
  have hbraced (d : Doc) : d.braced.atoms.marks = d.atoms.marks := Doc.marks_braced d
  have hhandlers : Adds env (List.flatMap fun r => r.1.marks)
      ((handlers.map (·.map env.child)).mapM (catchHandler env returns)) []
      (handlers.flatMap (Arrangement.handler returns)) := by
    induction handlers with
    | nil =>
      rw [List.map_nil, List.mapM_nil]
      exact .pure rfl
    | cons h handlers ih =>
      rw [List.map_cons, List.mapM_cons, List.flatMap_cons]
      exact (adds_catchHandler env returns h).append fun r => ih.last fun rs => rfl
  unfold Arrangement.attempt
  rw [List.cons_append, List.cons_append, List.append_assoc]
  refine (adds_body env returns tried).cons fun d => hhandlers.append fun rs => ?_
  have hrs : Atoms.marks (rs.map (·.1)).flatten = rs.flatMap fun r => r.1.marks := by
    rw [← List.flatMap_def, Atoms.marks_flatMap]
  have hfault (d : Doc) : (faultBody d).atoms.marks = d.atoms.marks := by simp [faultBody]
  simp only [pure_bind]
  cases fault with
  | none =>
    cases cleanup with
    | none => exact .pure (by simp [Doc.marks, hrs, hbraced])
    | some e =>
      exact (adds_body env false e).last fun d' => by simp [Doc.marks, hrs, hbraced]
  | some e =>
    refine (adds_body env false e).cons fun d' => ?_
    cases cleanup with
    | none => exact .pure (by simp [Doc.marks, hrs, hbraced, hfault])
    | some e' =>
      exact (adds_body env false e').last fun d'' => by simp [Doc.marks, hrs, hbraced, hfault]

end Render

end TreeScribe
