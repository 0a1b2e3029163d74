import TreeScribe.Proofs.Render.Operand.Basic

/-! The operators that blocks, lambdas and statements leave outside all brackets. -/
namespace TreeScribe

open Render Atoms

namespace Render

variable (env : Env)

variable {s : Settings} {c : Child}

theorem top_extractedCall (call : ExtractedCall) (ty : TypeRef) :
    Atoms.top (extractedCall call ty).atoms = ∅ := by
  have hpassed : WellLaid (Atoms.separated ", " (call.arguments.map fun p =>
      Atoms.when p.2 (keyword "ref" ++ space) ++ varName p.1)) := by
    refine .separated _ fun as has => ?_
    obtain ⟨p, -, rfl⟩ := List.mem_map.mp has
    exact .append (.when _ (.append (.keyword _) .space)) (.varName _)
  rw [extractedCall, top_append (.methodName _), top_methodName, Set.empty_union]
  exact top_parens hpassed

theorem top_valueBlock (node : Nat) (locals : List Variable) {expressions : List Child}
    (h : ∀ c ∈ expressions, ShownChild s c) (ty : TypeRef) :
    Gives (valueBlock env node locals expressions ty) fun d =>
      Atoms.top d.atoms =
        Surface.shown s ((Form.block locals (expressions.map (·.1)) ty).surface s) := by
  unfold valueBlock
  dsimp only
  split
  · simpa [Form.surface] using (h _ (List.mem_cons_self ..)).value
  next hlonger =>
    have hempty : (Form.block locals (expressions.map (·.1)) ty).surface s = [] := by
      rcases locals with _ | ⟨v, locals⟩ <;> rcases expressions with _ | ⟨only, _ | ⟨second, rest⟩⟩
      all_goals first | rfl | exact (hlonger _ rfl rfl).elim
    rw [hempty, Surface.shown_nil]
    split
    · exact .pure (top_extractedCall _ ty)
    · have hlaid : ∀ c ∈ expressions, WellLaidChild c := fun c hc => (h c hc).laid
      exact (laid_blockStatements env hlaid (fun _ _ => trivial) ty _).bind fun d hd => .pure hd.top_braced

theorem top_lambdaParameters (node : Nat) (parameters : List Variable) :
    Atoms.top (lambdaParameters env node parameters) = ∅ := by
  have hparameter (typed : Bool) : ∀ as ∈ parameters.map (lambdaParameter env node typed),
      WellLaid as ∧ Atoms.top as = ∅ := by
    intro as has
    obtain ⟨v, -, rfl⟩ := List.mem_map.mp has
    unfold lambdaParameter
    refine ⟨by grind -linarith, ?_⟩
    unfold Atoms.when
    split
    · split <;> simp (disch := grind -linarith) [Env.typeName]
    · simp (disch := grind -linarith)
  unfold lambdaParameters
  dsimp only
  split
  · exact top_parens (.separated _ fun as has => (hparameter _ as has).1)
  · exact top_separated _ (hparameter _)

theorem top_lambda (node : Nat) (parameters : List Variable) {body : Child}
    (h : ShownChild s body) (returnType ty : TypeRef) :
    Gives (lambda env node parameters body returnType ty) fun d =>
      Atoms.top d.atoms = Surface.shown s
        (.sign Level.lambda :: if body.1.rendersAsStatements then [] else [.bare body.1]) := by
  have hlead : WellLaid (lambdaParameters env node parameters) :=
    laid_lambdaParameters env fun _ _ => trivial
  have htop := top_lambdaParameters env node parameters
  unfold lambda
  dsimp only
  split
  · refine (h.laid.body _).bind fun d hd => .pure ?_
    simp (disch := grind -linarith) [htop, hd.top_braced]
  · refine (tops_value h).bind fun d hd => .pure ?_
    simp (disch := grind -linarith) [htop, top_enclosed hd.laid, hd.top]

theorem top_ternary {test ifTrue ifFalse : Child} (h : ShownChild s test)
    (ht : ShownChild s ifTrue) (hf : ShownChild s ifFalse) (ty : TypeRef) :
    Gives (ternary test ifTrue ifFalse ty) fun d =>
      Atoms.top d.atoms = Surface.shown s
        (Surface.operand test.1 Level.coalesce ++ [Part.sign Level.conditional] ++
          Surface.operand ifTrue.1 Level.conditional ++
          Surface.operand ifFalse.1 Level.conditional) := by
  refine (tops_operand h _).bind fun d hd => (tops_operand ht _).bind fun d' hd' => ?_
  refine (tops_operand hf _).bind fun d'' hd'' => .pure ?_
  have := hd.laid
  have := hd'.laid
  have := hd''.laid
  dsimp only
  ext level
  split <;> simp (disch := grind -linarith) [hd.top, hd'.top, hd''.top]

/-- All that an `if` statement writes stands in brackets. -/
theorem top_ifStatement {test ifTrue ifFalse : Child} (h : WellLaidChild test)
    (ht : WellLaidChild ifTrue) (hf : ShownChild s ifFalse) (ty : TypeRef) (returns : Bool) :
    Gives (ifStatement test ifTrue ifFalse ty returns) fun d => Atoms.top d.atoms = ∅ := by
  refine (ht.body _).bind fun taken htaken => (laid_value h).bind fun condition hcondition => ?_
  have hbraced := htaken.top_braced
  dsimp only
  split
  · refine .pure ?_
    simp (disch := grind -linarith) [hbraced]
  · split
    next hchained =>
      obtain ⟨e, r⟩ := ifFalse
      unfold isChained at hchained
      split at hchained
      next test ifTrue ifFalse ty hform =>
        refine (hf.chained _ _ _ _ hform returns).bind fun other hother => .pure ?_
        simp (disch := grind -linarith) [hbraced, hother]
      · cases hchained
    · refine (hf.laid.body _).bind fun other hother => .pure ?_
      simp (disch := grind -linarith) [hbraced, hother.top_braced]

theorem top_loop (node : Nat) {body : Child} (h : WellLaidChild body) (breakTarget : Option Target) :
    Gives (loop env node body breakTarget) fun d => Atoms.top d.atoms = ∅ := by
  refine (h.body _).bind fun d hd => .pure ?_
  dsimp only
  split <;> simp (disch := grind -linarith) [hd.top_braced]

theorem top_jump (kind : JumpKind) (target : Target) {result : Option Child}
    (h : ∀ c ∈ result, ShownChild s c) (ty : TypeRef) :
    Gives (jump kind target result ty) fun d =>
      Atoms.top d.atoms =
        Surface.shown s ((Form.jump kind target (result.map (·.1)) ty).surface s) := by
  unfold jump
  cases kind with
  | goto | «break» | «continue» => exact .pure (by simp (disch := grind -linarith) [Form.surface])
  | «return» =>
    cases result with
    | none => exact .pure (by simp (disch := grind -linarith) [Form.surface])
    | some c =>
      refine (tops_value (h c rfl)).bind fun d hd => .pure ?_
      simp (disch := grind -linarith) [Form.surface, Doc.returned, hd.top]

theorem top_label (target : Target) (defaultValue : Option Child) :
    Gives (label env target defaultValue false) fun d => Atoms.top d.atoms = ∅ := by
  have hfilter : defaultValue.filter (fun _ => false) = none := by
    cases defaultValue <;> rfl
  unfold label
  dsimp only
  rw [hfilter]
  by_cases hshown : env.analysis.isJumpTarget target = true
  · rw [if_pos hshown]
    exact .pure (by simp (disch := grind -linarith) [Atoms.when, hshown])
  · rw [if_neg hshown]
    exact .pure top_nil

theorem top_switch (node : Nat) {subject : Child} {cases : List (SwitchCase Child)}
    {defaultBody : Option Child} {ty : TypeRef}
    (h : ∀ c ∈ (Form.switch subject cases defaultBody ty).children, WellLaidChild c)
    (returns : Bool) :
    Gives (switch node subject cases defaultBody ty returns) fun d => Atoms.top d.atoms = ∅ := by
  have hcases : ∀ c ∈ cases, (∀ t ∈ c.tests, WellLaidChild t) ∧ WellLaidChild c.body := by
    intro k hk
    have hk := fun c hc => h c (Form.mem_children_case hk hc)
    exact ⟨fun t ht => hk t (by simp [ht]), hk k.body (by simp)⟩
  refine (laid_value (h subject (by simp [Form.children]))).bind fun d hd => ?_
  refine (laid_switchCases returns true hcases).bind fun r hr => ?_
  cases defaultBody with
  | none =>
    refine .pure ?_
    simp (disch := grind -linarith)
  | some c =>
    refine ((h c (by simp [Form.children])).body _).bind fun b hb => .pure ?_
    have := laid_caseBody hb
    simp (disch := grind -linarith)

theorem top_catchHandler (returns : Bool) {h : Handler Child}
    (hfilter : ∀ c ∈ h.filter, WellLaidChild c) (hbody : WellLaidChild h.body) :
    Gives (catchHandler env returns h) fun r => WellLaid r.1 ∧ Atoms.top r.1 = ∅ := by
  refine (laid_catchHandler env returns trivial hfilter hbody).and ?_
  have hcatch : Atoms.top (catchAtoms env h) = ∅ := by
    unfold catchAtoms
    dsimp only
    split
    · simp (disch := grind -linarith)
    · split <;> simp (disch := grind -linarith)
  refine (hbody.body _).bind fun d hd => ?_
  have hbraced := hd.top_braced
  cases hf : h.filter with
  | none => exact .pure (by simp (disch := grind -linarith) [hcatch, hbraced])
  | some c =>
    exact (laid_value (hfilter c hf)).bind fun f hf =>
      .pure (by simp (disch := grind -linarith) [hcatch, hbraced])

theorem top_clause (word : String) {d : Doc} (h : d.IsWellLaid) :
    Atoms.top (newline ++ control word ++ newline ++ d.braced.atoms) = ∅ := by
  simp (disch := grind -linarith) [h.top_braced]

theorem top_attempt {tried : Child} {handlers : List (Handler Child)}
    {cleanup fault : Option Child} {ty : TypeRef}
    (h : ∀ c ∈ (Form.try tried handlers cleanup fault ty).children, WellLaidChild c)
    (returns : Bool) :
    Gives (attempt env tried handlers cleanup fault ty returns) fun d => Atoms.top d.atoms = ∅ := by
  have hhandlers : ∀ k ∈ handlers,
      Gives (catchHandler env returns k) fun r => WellLaid r.1 ∧ Atoms.top r.1 = ∅ := by
    intro k hk
    have hk := fun c hc => h c (Form.mem_children_handler hk hc)
    refine top_catchHandler env returns (fun c hc => hk c ?_) (hk k.body (by simp))
    exact List.mem_append_left _ (Option.mem_toList.mpr hc)
  refine ((h tried (by simp [Form.children])).body _).bind fun d hd => ?_
  refine (Gives.mapM hhandlers).bind fun rs hrs => ?_
  have hrs : ∀ as ∈ rs.map (·.1), WellLaid as ∧ Atoms.top as = ∅ := by
    intro as has
    obtain ⟨r, hr, rfl⟩ := List.mem_map.mp has
    exact hrs r hr
  have hlaid : WellLaid (rs.map (·.1)).flatten := .flatten fun as has => (hrs as has).1
  have hlead : WellLaid (control "try" ++ newline ++ d.braced.atoms ++ (rs.map (·.1)).flatten) :=
    .append (.append (.append (.control _) .newline) hd.braced) hlaid
  have htop : Atoms.top (control "try" ++ newline ++ d.braced.atoms ++
      (rs.map (·.1)).flatten) = ∅ := by
    simp (disch := grind -linarith) only [top_append, top_control, top_newline, hd.top_braced,
      top_flatten hrs, Set.union_empty]
  have hends {f c : Atoms} (hf : WellLaid f) (hftop : Atoms.top f = ∅) (hctop : Atoms.top c = ∅) :
      Atoms.top (control "try" ++ newline ++ d.braced.atoms ++ (rs.map (·.1)).flatten ++ f ++ c) = ∅ := by
    rw [top_append (.append hlead hf), top_append hlead, htop, hftop, hctop, Set.union_empty,
      Set.union_empty]
  have hbody {c : Child} (hc : c ∈ (Form.try tried handlers cleanup fault ty).children) :
      Gives (c.2.body false) Doc.IsWellLaid :=
    (h c hc).body false
  simp only [pure_bind]
  cases fault with
  | none =>
    cases cleanup with
    | none =>
      refine .pure ?_
      exact hends .nil top_nil top_nil
    | some c =>
      refine (hbody (c := c) (by simp [Form.children])).bind fun b hb => .pure ?_
      exact hends .nil top_nil (top_clause _ hb)
  | some f =>
    refine (hbody (c := f) (by simp [Form.children])).bind fun b hb => ?_
    have hcatch := laid_clause "catch" (laid_faultBody hb)
    have hcatchTop := top_clause "catch" (laid_faultBody hb)
    cases cleanup with
    | none =>
      refine .pure ?_
      exact hends hcatch hcatchTop top_nil
    | some c =>
      refine (hbody (c := c) (by simp [Form.children])).bind fun b hb => .pure ?_
      exact hends hcatch hcatchTop (top_clause _ hb)

theorem top_commentLines (lines : List (List Char)) : Atoms.top (commentLines lines) = ∅ := by
  induction lines with
  | nil => exact top_nil
  | cons line lines ih =>
    cases lines with
    | nil => exact top_token _ _
    | cons line' lines =>
      show Atoms.top (token .comment _ ++ newline ++ commentLines (line' :: lines)) = ∅
      simp (disch := grind -linarith) [ih]

theorem top_defaultValue (ty : TypeRef) : Atoms.top (defaultValue env ty).atoms = ∅ := by
  unfold defaultValue
  split
  · exact top_nil
  · simp (disch := grind -linarith)

theorem top_extension (name : String) (ty : TypeRef) (display : Option String)
    {operands : List Child} (h : ∀ c ∈ operands, WellLaidChild c) :
    Gives (extension name ty display operands) fun d => Atoms.top d.atoms = ∅ := by
  unfold extension
  split
  · exact .pure (top_text _)
  · split
    · exact .pure (top_text _)
    · refine (laid_values h).bind fun ds hds => .pure ?_
      rw [top_append (.text _), top_text, Set.empty_union]
      exact top_parens (Doc.laid_separated _ hds)

end Render

end TreeScribe
