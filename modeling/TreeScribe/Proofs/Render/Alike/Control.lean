import TreeScribe.Proofs.Render.Alike.Statements

/-! Lambdas, branches, loops and handlers of a tree and its twin. -/
namespace TreeScribe

open Atoms Render

namespace Twins

variable {T : Twins} {d d' : Doc}

section Control

variable {e : Expr}

theorem alike_body {returns : Bool} (h : T.AgreesOn [Arrangement.body returns e]) :
    Alike T.Body ((T.child e).2.body returns) ((T.twinOf e).2.body returns) :=
  h.one

theorem matches_lambdaParameters {node : Nat} {parameters : List Variable}
    (h : ∀ v ∈ parameters, T.other.isParameterUsed (T.label node) v = T.analysis.isParameterUsed node v) :
    Matches T.base (lambdaParameters T.env node parameters)
      (lambdaParameters T.twin (T.label node) parameters) := by
  have hinner (typed : Bool) : Matches T.base
      (Atoms.separated ", " (parameters.map (lambdaParameter T.env node typed)))
      (Atoms.separated ", " (parameters.map (lambdaParameter T.twin (T.label node) typed))) := by
    refine .separated _ ?_
    rw [List.forall₂_map_left_iff, List.forall₂_map_right_iff, List.forall₂_same]
    intro v hv
    have hused : T.twin.analysis.isParameterUsed (T.label node) v =
        T.env.analysis.isParameterUsed node v :=
      h v hv
    unfold lambdaParameter
    dsimp only
    rw [hused, settings_env, settings_twin]
    exact .append (.when _ (.append (.append (.when _ (.append (.keyword _) .space))
      (matches_typeName _)) .space)) (.varName _)
  unfold lambdaParameters
  dsimp only
  rw [settings_env, settings_twin]
  split
  · exact .parens (hinner _)
  · exact hinner _

theorem alike_lambda {node : Nat} {parameters : List Variable} (returnType ty : TypeRef)
    (hused : ∀ v ∈ parameters,
      T.other.isParameterUsed (T.label node) v = T.analysis.isParameterUsed node v)
    (h : T.AgreesOn (Arrangement.enclosed node [if e.rendersAsStatements then
      Arrangement.body (!returnType.isVoid) e else Arrangement.value e])) :
    Alike T.Part (lambda T.env node parameters (T.child e) returnType ty)
      (lambda T.twin (T.label node) parameters (T.twinOf e) returnType ty) := by
  have hlead := matches_lambdaParameters hused
  have h := h.enclosed
  unfold lambda
  dsimp only
  rw [Node.rendersAsStatements_relabel]
  split at h
  next hstatements =>
    rw [if_pos hstatements, if_pos hstatements]
    exact (alike_body h).last fun d d' hd => ⟨⟨rfl, rfl, rfl, rfl, rfl⟩,
      .append (.append (.append hlead (.operator _ _)) .newline) (.enclosed _ _ hd.braced.atoms)⟩
  next hstatements =>
    rw [if_neg hstatements, if_neg hstatements]
    exact (alike_value h).last fun d d' hd => ⟨⟨rfl, rfl, rfl, rfl, rfl⟩,
      .append (.append hlead (.operator _ _)) (.enclosed _ _ hd.atoms)⟩

theorem alike_ifStatement {test ifTrue ifFalse : Expr} (ty : TypeRef) {returns : Bool}
    (h : T.AgreesOn (Arrangement.ifStatement test ifTrue ifFalse returns)) :
    Alike T.Part (ifStatement (T.child test) (T.child ifTrue) (T.child ifFalse) ty returns)
      (ifStatement (T.twinOf test) (T.twinOf ifTrue) (T.twinOf ifFalse) ty returns) := by
  unfold Arrangement.ifStatement at h
  obtain ⟨hboth, hother⟩ := AgreesOn.cons_iff.mp h
  have htest : T.Agrees (.child (.inPosition .value) test) := hboth _ (List.mem_cons_self ..)
  have htaken : T.Agrees (.child (.body returns) ifTrue) :=
    hboth _ (List.mem_cons_of_mem _ (List.mem_singleton_self _))
  refine Alike.bind htaken fun taken taken' htaken => Alike.bind htest fun c c' hc => ?_
  have hlead : Matches T.base
      (control "if" ++ bracketed " (" ")" c.atoms ++ newline ++ taken.braced.atoms)
      (control "if" ++ bracketed " (" ")" c'.atoms ++ newline ++ taken'.braced.atoms) :=
    .append (.append (.append (.control _) (.bracketed _ _ hc.atoms)) .newline) htaken.braced.atoms
  dsimp only at hother ⊢
  rw [Node.isEmpty_relabel, isChained_relabel]
  split at hother
  next hempty =>
    rw [if_pos hempty, if_pos hempty]
    exact .pure ⟨⟨rfl, rfl, rfl, rfl, rfl⟩, hlead⟩
  next hempty =>
    rw [if_neg hempty, if_neg hempty]
    split at hother
    next hchained =>
      rw [if_pos hchained, if_pos hchained]
      exact Alike.last hother.one fun d d' hd =>
        ⟨⟨rfl, rfl, rfl, by rw [htaken.endsWithJump, hd.endsWithJump], rfl⟩,
          .append (.append (.append (.append hlead .newline) (.control _)) .space) hd.atoms⟩
    next hchained =>
      rw [if_neg hchained, if_neg hchained]
      exact (alike_body hother).last fun d d' hd =>
        ⟨⟨rfl, rfl, rfl, by rw [htaken.endsWithJump, hd.endsWithJump], rfl⟩,
          .append (.append (.append (.append hlead .newline) (.control _)) .newline) hd.braced.atoms⟩

theorem alike_loop (node : Nat) (breakTarget : Option Target)
    (h : T.AgreesOn [Arrangement.body false e]) :
    Alike T.Part (loop T.env node (T.child e) breakTarget)
      (loop T.twin (T.label node) (T.twinOf e) breakTarget) := by
  have hfilter : breakTarget.filter T.twin.analysis.isJumpTarget =
      breakTarget.filter T.env.analysis.isJumpTarget :=
    congrArg breakTarget.filter (funext T.isJumpTarget)
  refine (alike_body h).last fun d d' hd => ⟨⟨rfl, rfl, rfl, rfl, rfl⟩, ?_⟩
  dsimp only
  rw [hfilter]
  refine .append (.append (.append (.append (.control _) (.bracketed _ _ (.keyword _))) .newline)
    (.enclosed _ _ hd.braced.atoms)) ?_
  split
  · exact .append .newline (.labelLine _)
  · exact .nil

theorem alike_jump (kind : JumpKind) (target : Target) {result : Option Expr} (ty : TypeRef)
    (h : T.AgreesOn (if kind = .return then Arrangement.values result.toList else [])) :
    Alike T.Part (jump kind target (result.map T.child) ty)
      (jump kind target (result.map T.twinOf) ty) := by
  have hdoc {as : Atoms} (has : Matches T.base as as) :
      T.Part { kind := .goto, ty, atoms := as, endsWithJump := true }
        { kind := .goto, ty, atoms := as, endsWithJump := true } :=
    ⟨⟨rfl, rfl, rfl, rfl, rfl⟩, has⟩
  cases kind with
  | goto => exact .pure (hdoc (.append (.append (.control _) .space) (.text _)))
  | «break» => exact .pure (hdoc (.control _))
  | «continue» => exact .pure (hdoc (.control _))
  | «return» =>
    cases result with
    | none => exact .pure (hdoc (.control _))
    | some e =>
      have hvalue : Alike T.Part (value (T.child e)) (value (T.twinOf e)) := alike_value h
      exact hvalue.last fun d d' hd => hd.returned

theorem alike_label (target : Target) {defaultValue : Option Expr} {returns : Bool}
    (h : T.AgreesOn (Arrangement.label T.env target defaultValue returns)) :
    Alike T.Part (Render.label T.env target (defaultValue.map T.child) returns)
      (Render.label T.twin target (defaultValue.map T.twinOf) returns) := by
  have hshown : T.twin.analysis.isJumpTarget target = T.env.analysis.isJumpTarget target :=
    T.isJumpTarget target
  have hlead : Matches T.base
      (Atoms.when (T.env.analysis.isJumpTarget target) (labelLine target))
      (Atoms.when (T.env.analysis.isJumpTarget target) (labelLine target)) :=
    .when _ (.labelLine _)
  have h := (AgreesOn.append_iff.mp h).2
  have hnone : Alike T.Part (Render.label T.env target none returns) (Render.label T.twin target none returns) := by
    unfold Render.label
    dsimp only [Option.filter_none]
    rw [hshown]
    split
    · exact .pure ⟨⟨rfl, rfl, rfl, rfl, rfl⟩, hlead⟩
    · exact .pure ⟨⟨rfl, rfl, rfl, rfl, rfl⟩, .nil⟩
  cases defaultValue with
  | none => exact hnone
  | some e =>
    cases returns with
    | false => exact hnone
    | true =>
      have hvalue : Alike T.Part (value (T.child e)) (value (T.twinOf e)) := alike_value h
      refine hvalue.last fun d d' hd => ⟨⟨rfl, rfl, rfl, rfl, rfl⟩, ?_⟩
      dsimp only
      rw [hshown]
      exact .append (.append hlead (.when _ .newline)) hd.returned.terminated.atoms

theorem matches_caseBody (hd : T.Body d d') : Matches T.base (caseBody d) (caseBody d') := by
  unfold caseBody
  rw [hd.isEmpty, hd.endsWithJump]
  refine .indented (.append ?_ (.when _ (.append (.append .newline (.control _)) (.text _))))
  cases hempty : d'.isEmpty with
  | false => exact hd.atoms
  | true =>
    have hnone (x : Doc) (h : x.isEmpty = true) : x.atoms = [] := List.isEmpty_iff.mp h
    rw [hnone d' hempty, hnone d (hd.isEmpty.trans hempty)]
    exact .nil

theorem alike_switchCases {returns : Bool} (first : Bool) {cases : List (SwitchCase Expr)}
    (h : T.AgreesOn (cases.flatMap fun c =>
      Arrangement.values c.tests ++ [Arrangement.body returns c.body])) :
    Alike (fun r r' => Matches T.base r.1 r'.1 ∧ r.2 = r'.2)
      (switchCases returns first (cases.map (·.map T.child)))
      (switchCases returns first (cases.map (·.map T.twinOf))) := by
  induction cases generalizing first with
  | nil => exact .pure ⟨.nil, rfl⟩
  | cons c cases ih =>
    rw [List.flatMap_cons, AgreesOn.append_iff, AgreesOn.append_iff] at h
    obtain ⟨⟨htests, hbody⟩, hcases⟩ := h
    refine (alike_values htests).bind fun ts ts' hts => (alike_body hbody).bind fun d d' hd =>
      (ih false hcases).last fun r r' hr => ⟨?_, by rw [hd.endsWithJump, hr.2]⟩
    refine .append (.append (.append (.when _ .newline) ?_) (matches_caseBody hd)) hr.1
    rw [List.flatMap_def, List.flatMap_def]
    refine .flatten ?_
    rw [List.forall₂_map_left_iff, List.forall₂_map_right_iff]
    exact hts.imp fun t t' ht =>
      .append (.append (.append (.append .newline (.control _)) .space) ht.atoms) (.text _)

theorem alike_switch (node : Nat) {subject : Expr} {cases : List (SwitchCase Expr)} {defaultBody : Option Expr}
    (ty : TypeRef) {returns : Bool}
    (h : T.AgreesOn (Arrangement.switch node subject cases defaultBody returns)) :
    Alike T.Part
      (switch node (T.child subject) (cases.map (·.map T.child)) (defaultBody.map T.child) ty returns)
      (switch (T.label node) (T.twinOf subject) (cases.map (·.map T.twinOf)) (defaultBody.map T.twinOf)
        ty returns) := by
  obtain ⟨hsubject, hbodies⟩ := AgreesOn.cons_iff.mp h
  obtain ⟨hcases, hdefault⟩ := AgreesOn.append_iff.mp hbodies.enclosed
  refine (alike_value hsubject).bind fun s s' hs => (alike_switchCases true hcases).bind fun r r' hr => ?_
  have hempty (c : Expr → Child) : (cases.map (·.map c)).isEmpty = cases.isEmpty := List.isEmpty_map
  have hdoc {as as' : Atoms} (has : Matches T.base as as') (jumps : Bool) :
      T.Part
        { kind := .switch, ty, isTerminated := true, endsWithJump := jumps
          atoms := control "switch" ++ bracketed " (" ")" s.atoms ++ newline ++
            enclosed node (bracketed "\x7b" "\x7d" (indented (r.1 ++ as) ++ newline)) }
        { kind := .switch, ty, isTerminated := true, endsWithJump := jumps
          atoms := control "switch" ++ bracketed " (" ")" s'.atoms ++ newline ++
            enclosed (T.label node)
              (bracketed "\x7b" "\x7d" (indented (r'.1 ++ as') ++ newline)) } :=
    ⟨⟨rfl, rfl, rfl, rfl, rfl⟩,
      .append (.append (.append (.control _) (.bracketed _ _ hs.atoms)) .newline)
        (.enclosed _ _ (.bracketed _ _ (.append (.indented (.append hr.1 has)) .newline)))⟩
  cases defaultBody with
  | none => exact .pure (hdoc .nil false)
  | some e =>
    dsimp only [Option.map_some]
    rw [hempty, hempty]
    refine (alike_body hdefault).last fun d d' hd => ?_
    dsimp only
    rw [hr.2, hd.endsWithJump]
    exact hdoc (.append (.append (.append (.append (.when _ .newline) .newline) (.control _)) (.text _))
      (matches_caseBody hd)) _

theorem matches_catchAtoms {h : Handler Expr}
    (hused : ∀ v ∈ h.caught,
      T.other.isCaughtUsed (T.label h.body.label) v = T.analysis.isCaughtUsed h.body.label v) :
    Matches T.base (catchAtoms T.env (h.map T.child)) (catchAtoms T.twin (h.map T.twinOf)) := by
  obtain ⟨test, caught, filter, handlerBody⟩ := h
  have hnamed : caught.filter (T.twin.analysis.isCaughtUsed (handlerBody.relabel T.label).label) =
      caught.filter (T.env.analysis.isCaughtUsed handlerBody.label) := by
    rw [Node.label_relabel]
    cases caught with
    | none => rfl
    | some v =>
      have hv : T.twin.analysis.isCaughtUsed (T.label handlerBody.label) v =
          T.env.analysis.isCaughtUsed handlerBody.label v :=
        hused v rfl
      simp only [Option.filter, hv]
  simp only [catchAtoms, Handler.map, hnamed, Option.isNone_map]
  refine .append (.control _) ?_
  cases caught.filter (T.env.analysis.isCaughtUsed handlerBody.label) with
  | some v => exact .bracketed _ _ (.append (.append (matches_typeName _) .space) (.varName _))
  | none =>
    by_cases hall : ((test.isObject || decide (test = TypeRef.exception)) && filter.isNone) = true
    · exact .cast (if_pos hall) (if_pos hall) .nil
    · exact .cast (if_neg hall) (if_neg hall) (.bracketed _ _ (matches_typeName _))

theorem alike_catchHandler {returns : Bool} {h : Handler Expr}
    (hused : ∀ v ∈ h.caught,
      T.other.isCaughtUsed (T.label h.body.label) v = T.analysis.isCaughtUsed h.body.label v)
    (hagrees : T.AgreesOn (Arrangement.handler returns h)) :
    Alike (fun r r' => Matches T.base r.1 r'.1 ∧ r.2 = r'.2)
      (catchHandler T.env returns (h.map T.child)) (catchHandler T.twin returns (h.map T.twinOf)) := by
  have hcatch := matches_catchAtoms hused
  obtain ⟨test, caught, filter, handlerBody⟩ := h
  unfold Arrangement.handler at hagrees
  unfold catchHandler
  cases filter with
  | none =>
    exact (alike_body hagrees).last fun d d' hd =>
      ⟨.append (.append (.append (.append .newline hcatch) .nil) .newline) hd.braced.atoms,
        hd.endsWithJump⟩
  | some e =>
    have hfilter : T.Agrees (.child (.inPosition .value) e) := hagrees _ (List.mem_cons_self ..)
    have hbody : T.Agrees (.child (.body returns) handlerBody) :=
      hagrees _ (List.mem_cons_of_mem _ (List.mem_singleton_self _))
    refine Alike.bind hbody fun d d' hd => ?_
    simp only [Handler.map, Option.map_some, pure_bind]
    exact Alike.last hfilter fun f f' hf =>
      ⟨.append (.append (.append (.append .newline hcatch) (.append (.append .space (.keyword _))
        (.bracketed _ _ hf.atoms))) .newline) hd.braced.atoms, hd.endsWithJump⟩

theorem body_faultBody (hd : T.Body d d') : T.Body (faultBody d) (faultBody d') := by
  refine ⟨⟨rfl, rfl, rfl, rfl, rfl⟩, ?_⟩
  have hall : Matches T.base (newline ++ d.atoms ++ (newline ++ control "throw" ++ text ";"))
      (newline ++ d'.atoms ++ (newline ++ control "throw" ++ text ";")) :=
    .append hd.atoms (.append (.append .newline (.control _)) (.text _))
  simpa [faultBody] using hall

theorem alike_attempt {tried : Expr} {handlers : List (Handler Expr)} {cleanup fault : Option Expr}
    (ty : TypeRef) {returns : Bool}
    (hused : ∀ h ∈ handlers, ∀ v ∈ h.caught,
      T.other.isCaughtUsed (T.label h.body.label) v = T.analysis.isCaughtUsed h.body.label v)
    (h : T.AgreesOn (Arrangement.attempt tried handlers cleanup fault returns)) :
    Alike T.Part (attempt T.env (T.child tried) (handlers.map (·.map T.child)) (cleanup.map T.child)
        (fault.map T.child) ty returns)
      (attempt T.twin (T.twinOf tried) (handlers.map (·.map T.twinOf)) (cleanup.map T.twinOf)
        (fault.map T.twinOf) ty returns) := by
  unfold Arrangement.attempt at h
  rw [List.cons_append, List.cons_append, AgreesOn.cons_iff, AgreesOn.append_iff,
    AgreesOn.append_iff] at h
  obtain ⟨htried, ⟨hhandlers, hfault⟩, hcleanup⟩ := h
  have hcaught : Alike (List.Forall₂ fun r r' => Matches T.base r.1 r'.1 ∧ r.2 = r'.2)
      ((handlers.map (·.map T.child)).mapM (catchHandler T.env returns))
      ((handlers.map (·.map T.twinOf)).mapM (catchHandler T.twin returns)) :=
    .mapM fun k hk => alike_catchHandler (hused k hk) (hhandlers.flatMap hk)
  refine (alike_body htried).bind fun d d' hd => hcaught.bind fun rs rs' hrs => ?_
  have hjumps : rs.all (·.2) = rs'.all (·.2) := by
    induction hrs with
    | nil => rfl
    | cons hr _ ih => rw [List.all_cons, List.all_cons, hr.2, ih]
  have hlead : Matches T.base
      (control "try" ++ newline ++ d.braced.atoms ++ (rs.map (·.1)).flatten)
      (control "try" ++ newline ++ d'.braced.atoms ++ (rs'.map (·.1)).flatten) := by
    refine .append (.append (.append (.control _) .newline) hd.braced.atoms) (.flatten ?_)
    rw [List.forall₂_map_left_iff, List.forall₂_map_right_iff]
    exact hrs.imp fun r r' hr => hr.1
  have hdoc {f f' c c' : Atoms} (hf : Matches T.base f f') (hc : Matches T.base c c') :
      T.Part
        { kind := .try, ty, isTerminated := true, endsWithJump := d.endsWithJump && rs.all (·.2)
          atoms := control "try" ++ newline ++ d.braced.atoms ++ (rs.map (·.1)).flatten ++ f ++ c }
        { kind := .try, ty, isTerminated := true, endsWithJump := d'.endsWithJump && rs'.all (·.2)
          atoms := control "try" ++ newline ++ d'.braced.atoms ++ (rs'.map (·.1)).flatten ++ f' ++ c' } :=
    ⟨⟨rfl, rfl, rfl, by rw [hd.endsWithJump, hjumps], rfl⟩, .append (.append hlead hf) hc⟩
  have hclause (word : String) {b b' : Doc} (hb : T.Body b b') :
      Matches T.base (newline ++ control word ++ newline ++ b.braced.atoms)
        (newline ++ control word ++ newline ++ b'.braced.atoms) :=
    .append (.append (.append .newline (.control _)) .newline) hb.braced.atoms
  simp only [pure_bind]
  cases fault with
  | none =>
    cases cleanup with
    | none => exact .pure (hdoc .nil .nil)
    | some e => exact (alike_body hcleanup).last fun b b' hb => hdoc .nil (hclause "finally" hb)
  | some e =>
    refine (alike_body hfault).bind fun b b' hb => ?_
    have hcatch := hclause "catch" (body_faultBody hb)
    cases cleanup with
    | none => exact .pure (hdoc hcatch .nil)
    | some e => exact (alike_body hcleanup).last fun c c' hc => hdoc hcatch (hclause "finally" hc)

end Control

end Twins

end TreeScribe
