import TreeScribe.Proofs.Render.Laid.Basic

/-! Blocks, lambdas, branches, loops and handlers are well laid. -/
namespace TreeScribe

open Render Atoms

variable {P : TypeRef → Prop}

namespace Render

variable (env : Env)

/-! ### Blocks and lambdas -/

/-- What holds of groups of one name, and stays true as a name is added, holds of all groups. -/
theorem forall_addToGroup {Q : TypeRef × List String → Prop} {ty : TypeRef} {name : String} (hnew : Q (ty, [name]))
    (hadd : ∀ names, Q (ty, names) → Q (ty, names ++ [name])) {groups : List (TypeRef × List String)}
    (h : ∀ group ∈ groups, Q group) : ∀ group ∈ addToGroup ty name groups, Q group := by
  induction groups with
  | nil =>
    rw [addToGroup, List.forall_mem_singleton]
    exact hnew
  | cons group groups ih =>
    obtain ⟨hfirst, hrest⟩ := List.forall_mem_cons.mp h
    rw [addToGroup]
    split
    next hsame =>
      subst hsame
      exact List.forall_mem_cons.mpr ⟨hadd _ hfirst, hrest⟩
    · exact List.forall_mem_cons.mpr ⟨hfirst, ih hrest⟩

theorem forall_groups {Q : TypeRef × List String → Prop} {keys : List VariableKey}
    (hnew : ∀ key ∈ keys, Q (key.ty, [writtenName key.ty key.name]))
    (hadd : ∀ key ∈ keys, ∀ names, Q (key.ty, names) → Q (key.ty, names ++ [writtenName key.ty key.name]))
    {groups : List (TypeRef × List String)} (h : ∀ group ∈ groups, Q group) :
    ∀ group ∈ keys.foldl (fun groups key => addToGroup key.ty (writtenName key.ty key.name) groups) groups,
      Q group := by
  induction keys generalizing groups with
  | nil => exact h
  | cons key keys ih =>
    obtain ⟨hfirst, hnew⟩ := List.forall_mem_cons.mp hnew
    obtain ⟨hfirstAdd, hadd⟩ := List.forall_mem_cons.mp hadd
    exact ih hnew hadd (forall_addToGroup hfirst hfirstAdd h)

section Declarations

variable {node : Nat} (hnames : ∀ v ∈ env.analysis.blockDeclarations node, P v.ty)

include hnames

theorem laid_declarations : ∀ d ∈ declarations env node, d.IsLaid P := by
  have hgroups := forall_groups (Q := fun group => P group.1) hnames (fun _ _ _ h => h)
    (List.forall_mem_nil _)
  intro d hd
  obtain ⟨group, hgroup, rfl⟩ := List.mem_map.mp hd
  have hname := hgroups group hgroup
  have hwritten : ∀ as ∈ group.2.map varName, Laid P as := by
    intro as has
    obtain ⟨name, -, rfl⟩ := List.mem_map.mp has
    exact .varName name
  grind -linarith

end Declarations

@[grind ←] theorem laid_followed (previous : Doc) {ds : List Doc} (h : ∀ d ∈ ds, d.IsLaid P) :
    Laid P (followed previous ds) := by
  induction ds generalizing previous with
  | nil => exact .nil
  | cons d ds ih =>
    have hd := h d (List.mem_cons_self ..)
    have hds := ih d fun d' hd' => h d' (List.mem_cons_of_mem _ hd')
    unfold followed
    grind -linarith

theorem laid_followedDeclarations (previous : Doc) {statements declared : List Doc}
    (hs : ∀ d ∈ statements, d.IsLaid P) (hd : ∀ d ∈ declared, d.IsLaid P) :
    Laid P (followedDeclarations previous statements declared) := by
  induction declared generalizing previous with
  | nil =>
    cases statements with
    | nil => exact .nil
    | cons d ds =>
      have hfirst := hs d (List.mem_cons_self ..)
      have hrest := laid_followed d fun d' hd' => hs d' (List.mem_cons_of_mem _ hd')
      exact .append (.append (.append .newline .newline) hfirst) hrest
  | cons d ds ih =>
    have hfirst := hd d (List.mem_cons_self ..)
    have hrest := ih d fun d' hd' => hd d' (List.mem_cons_of_mem _ hd')
    unfold followedDeclarations
    grind -linarith

theorem laid_joinStatements (ty : TypeRef) {declared statements : List Doc}
    (hd : ∀ d ∈ declared, d.IsLaid P) (hs : ∀ d ∈ statements, d.IsLaid P) :
    (joinStatements ty declared statements).IsLaid P := by
  unfold joinStatements Doc.IsLaid
  dsimp only
  cases declared with
  | nil =>
    cases statements with
    | nil => exact .nil
    | cons d ds =>
      exact .append (hs d (List.mem_cons_self ..))
        (laid_followed d fun d' hd' => hs d' (List.mem_cons_of_mem _ hd'))
  | cons d ds =>
    exact .append (hd d (List.mem_cons_self ..))
      (laid_followedDeclarations d hs fun d' hd' => hd d' (List.mem_cons_of_mem _ hd'))

theorem laid_lastStatement (position : Position) (afterJump : Bool) {c : Child}
    (h : LaidChild P c) : Gives (lastStatement position afterJump c) (Doc.IsLaid P) := by
  unfold lastStatement
  split
  · exact h.landing _
  · exact h.inPosition _

theorem laid_statementsFrom (last : Position) (afterJump : Bool) {cs : List Child}
    (h : ∀ c ∈ cs, LaidChild P c) :
    Gives (statementsFrom last afterJump cs) fun ds => ∀ d ∈ ds, d.IsLaid P := by
  induction cs generalizing afterJump with
  | nil => exact .pure (by simp)
  | cons c cs ih =>
    have hc := h c (List.mem_cons_self ..)
    have hcs := fun afterJump => ih afterJump fun c' hc' => h c' (List.mem_cons_of_mem _ hc')
    have hnext (d : Doc) (hd : d.IsLaid P) :
        Gives (if d.isEmpty then statementsFrom last afterJump cs
          else do return d.terminated :: (← statementsFrom last d.terminated.endsWithJump cs))
          fun ds => ∀ d ∈ ds, d.IsLaid P := by
      split
      · exact hcs _
      · refine (hcs _).bind fun ds hds => .pure ?_
        exact List.forall_mem_cons.mpr ⟨hd.terminated, hds⟩
    unfold statementsFrom
    dsimp only
    split
    · exact hcs _
    · split
      · exact (laid_lastStatement _ _ hc).bind hnext
      · exact (hc.inPosition _).bind hnext

section Blocks

variable {node : Nat} {expressions : List Child} (h : ∀ c ∈ expressions, LaidChild P c)
  (hnames : ∀ v ∈ env.analysis.blockDeclarations node, P v.ty)

include h hnames

theorem laid_blockStatements (ty : TypeRef) (role : BlockRole) :
    Gives (blockStatements env node expressions ty role) (Doc.IsLaid P) :=
  (laid_statementsFrom _ _ h).bind fun _ hds =>
    .pure (laid_joinStatements ty (laid_declarations env hnames) hds)

theorem laid_nestedBlock (locals : List Variable) (ty : TypeRef) (returns : Bool) :
    Gives (nestedBlock env node locals expressions ty returns) (Doc.IsLaid P) := by
  refine (laid_blockStatements env h hnames ty _).bind fun d hd => .pure ?_
  split
  · exact hd
  · exact hd.braced

omit h hnames in
theorem laid_extractedCall (call : ExtractedCall) (ty : TypeRef) :
    (extractedCall call ty).IsLaid P := by
  refine .append (.methodName _) (.parens (.separated _ fun as has => ?_))
  obtain ⟨p, -, rfl⟩ := List.mem_map.mp has
  exact .append (.when _ (.append (.keyword _) .space)) (.varName _)

theorem laid_valueBlock (locals : List Variable) (ty : TypeRef) :
    Gives (valueBlock env node locals expressions ty) (Doc.IsLaid P) := by
  unfold valueBlock
  dsimp only
  split
  · exact laid_value (h _ (List.mem_cons_self ..))
  · split
    · exact .pure (laid_extractedCall _ ty)
    · exact (laid_blockStatements env h hnames ty _).bind fun d hd => .pure hd.braced

end Blocks

section Lambdas

variable {node : Nat} {parameters : List Variable}
  (hnames : ∀ t ∈ Named.lambda env.settings parameters, P t)

include hnames

theorem laid_lambdaParameters : Laid P (lambdaParameters env node parameters) := by
  have hparameter : ∀ as ∈ parameters.map
      (lambdaParameter env node (env.settings.writesParameterTypes parameters)), Laid P as := by
    intro as has
    obtain ⟨v, hv, rfl⟩ := List.mem_map.mp has
    refine .append ?_ (.varName _)
    unfold Named.lambda at hnames
    unfold Atoms.when
    split
    next htyped =>
      rw [if_pos htyped] at hnames
      have hname := hnames v.ty (List.mem_map_of_mem hv)
      grind -linarith
    · exact .nil
  unfold lambdaParameters
  dsimp only
  split
  · exact .parens (.separated _ hparameter)
  · exact .separated _ hparameter

theorem laid_lambda {body : Child} (h : LaidChild P body) (returnType ty : TypeRef) :
    Gives (lambda env node parameters body returnType ty) (Doc.IsLaid P) := by
  have hlead : Laid P (lambdaParameters env node parameters) := laid_lambdaParameters env hnames
  unfold lambda
  dsimp only
  split
  · exact (h.body _).bind fun d hd => .pure (by grind -linarith)
  · exact (laid_value h).bind fun d hd => .pure (by grind -linarith)

end Lambdas

/-! ### Control flow -/

theorem laid_ternary {test ifTrue ifFalse : Child} (h : LaidChild P test) (ht : LaidChild P ifTrue)
    (hf : LaidChild P ifFalse) (ty : TypeRef) :
    Gives (ternary test ifTrue ifFalse ty) (Doc.IsLaid P) := by
  refine (laid_operand h _).bind fun d hd => (laid_operand ht _).bind fun d' hd' => ?_
  refine (laid_operand hf _).bind fun d'' hd'' => .pure ?_
  grind -linarith

theorem laid_ifStatement {test ifTrue ifFalse : Child} (h : LaidChild P test)
    (ht : LaidChild P ifTrue) (hf : LaidChild P ifFalse) (ty : TypeRef) (returns : Bool) :
    Gives (ifStatement test ifTrue ifFalse ty returns) (Doc.IsLaid P) := by
  refine (ht.body _).bind fun taken htaken => (laid_value h).bind fun condition hcondition => ?_
  dsimp only
  split
  · exact .pure (by grind -linarith)
  · split
    · exact (hf.chained _).bind fun other hother => .pure (by grind -linarith)
    · exact (hf.body _).bind fun other hother => .pure (by grind -linarith)

theorem laid_loop (node : Nat) {body : Child} (h : LaidChild P body) (breakTarget : Option Target) :
    Gives (loop env node body breakTarget) (Doc.IsLaid P) :=
  (h.body _).bind fun d hd => .pure (by grind -linarith)

theorem laid_jump (kind : JumpKind) (target : Target) {result : Option Child}
    (h : ∀ c ∈ result, LaidChild P c) (ty : TypeRef) :
    Gives (jump kind target result ty) (Doc.IsLaid P) := by
  unfold jump
  dsimp only
  cases kind with
  | goto | «break» | «continue» => exact .pure (by grind -linarith)
  | «return» =>
    cases result with
    | none => exact .pure (by grind -linarith)
    | some c => exact (laid_value (h c rfl)).bind fun d hd => .pure hd.returned

theorem laid_label (target : Target) {defaultValue : Option Child}
    (h : ∀ c ∈ defaultValue, LaidChild P c) (returns : Bool) :
    Gives (label env target defaultValue returns) (Doc.IsLaid P) := by
  unfold label
  dsimp only
  split
  next c hc =>
    have hc := laid_value (h c (Option.filter_eq_some_iff.mp hc).1)
    exact hc.bind fun d hd => .pure (by grind -linarith)
  · split
    · exact .pure (by grind -linarith)
    · exact .pure .nil

@[grind ←] theorem laid_caseBody {d : Doc} (h : d.IsLaid P) : Laid P (caseBody d) :=
  have hbreak : Laid P (newline ++ control "break" ++ text ";") :=
    .append (.append .newline (.control _)) (.text _)
  .indented (.append (.append (.when _ .newline) h) (.when _ hbreak))

theorem laid_switchCases (returns first : Bool) {cases : List (SwitchCase Child)}
    (h : ∀ c ∈ cases, (∀ t ∈ c.tests, LaidChild P t) ∧ LaidChild P c.body) :
    Gives (switchCases returns first cases) fun r => Laid P r.1 := by
  induction cases generalizing first with
  | nil => exact .pure .nil
  | cons c cs ih =>
    obtain ⟨htests, hbody⟩ := h c (List.mem_cons_self ..)
    have hcs := ih false fun c' hc' => h c' (List.mem_cons_of_mem _ hc')
    refine (laid_values htests).bind fun ts hts => (hbody.body _).bind fun d hd => ?_
    have hlead : Laid P (ts.flatMap fun t =>
        newline ++ control "case" ++ space ++ t.atoms ++ text ":") := by
      rw [List.flatMap_def]
      refine .flatten fun as has => ?_
      obtain ⟨t, ht, rfl⟩ := List.mem_map.mp has
      have := hts t ht
      grind -linarith
    exact hcs.bind fun r hr => .pure (by grind -linarith)

theorem laid_switch (node : Nat) {subject : Child} {cases : List (SwitchCase Child)}
    {defaultBody : Option Child} {ty : TypeRef}
    (h : ∀ c ∈ (Form.switch subject cases defaultBody ty).children, LaidChild P c)
    (returns : Bool) : Gives (switch node subject cases defaultBody ty returns) (Doc.IsLaid P) := by
  have hcases : ∀ c ∈ cases, (∀ t ∈ c.tests, LaidChild P t) ∧ LaidChild P c.body := by
    intro k hk
    have hk := fun c hc => h c (Form.mem_children_case hk hc)
    exact ⟨fun t ht => hk t (by simp [ht]), hk k.body (by simp)⟩
  refine (laid_value (h subject (by simp [Form.children]))).bind fun d hd => ?_
  refine (laid_switchCases returns true hcases).bind fun r hr => ?_
  cases defaultBody with
  | none => exact .pure (by grind -linarith)
  | some c =>
    have hc := h c (by simp [Form.children])
    exact (hc.body _).bind fun b hb => .pure (by grind -linarith)

@[grind ←] theorem laid_catchAtoms {h : Handler Child} (hname : P h.test) :
    Laid P (catchAtoms env h) := by
  unfold catchAtoms
  dsimp only
  split
  · grind -linarith
  · split <;> grind -linarith

theorem laid_catchHandler (returns : Bool) {h : Handler Child} (hname : P h.test)
    (hfilter : ∀ c ∈ h.filter, LaidChild P c) (hbody : LaidChild P h.body) :
    Gives (catchHandler env returns h) fun r => Laid P r.1 := by
  refine (hbody.body _).bind fun d hd => ?_
  cases hf : h.filter with
  | none => exact .pure (by grind -linarith)
  | some c => exact (laid_value (hfilter c hf)).bind fun f hf => .pure (by grind -linarith)

theorem laid_clause (word : String) {d : Doc} (h : d.IsLaid P) :
    Laid P (newline ++ control word ++ newline ++ d.braced.atoms) :=
  .append (.append (.append .newline (.control _)) .newline) h.braced

theorem laid_faultBody {d : Doc} (h : d.IsLaid P) : (faultBody d).IsLaid P :=
  .append (.append (.append h .newline) (.control _)) (.text _)

theorem laid_attempt {tried : Child} {handlers : List (Handler Child)}
    {cleanup fault : Option Child} {ty : TypeRef}
    (h : ∀ c ∈ (Form.try tried handlers cleanup fault ty).children, LaidChild P c)
    (hnames : ∀ k ∈ handlers, P k.test) (returns : Bool) :
    Gives (attempt env tried handlers cleanup fault ty returns) (Doc.IsLaid P) := by
  have hhandlers : ∀ k ∈ handlers, Gives (catchHandler env returns k) fun r => Laid P r.1 := by
    intro k hmem
    have hk := fun c hc => h c (Form.mem_children_handler hmem hc)
    refine laid_catchHandler env returns (hnames k hmem) (fun c hc => hk c ?_) (hk k.body (by simp))
    exact List.mem_append_left _ (Option.mem_toList.mpr hc)
  refine ((h tried (by simp [Form.children])).body _).bind fun d hd => ?_
  refine (Gives.mapM hhandlers).bind fun rs hrs => ?_
  have hlead : Laid P (control "try" ++ newline ++ d.braced.atoms ++ (rs.map (·.1)).flatten) := by
    refine .append (.append (.append (.control _) .newline) hd.braced) (.flatten fun as has => ?_)
    obtain ⟨r, hr, rfl⟩ := List.mem_map.mp has
    exact hrs r hr
  have hends {f c : Atoms} (hf : Laid P f) (hc : Laid P c) :
      Laid P (control "try" ++ newline ++ d.braced.atoms ++ (rs.map (·.1)).flatten ++ f ++ c) :=
    .append (.append hlead hf) hc
  have hbody {c : Child} (hc : c ∈ (Form.try tried handlers cleanup fault ty).children) :
      Gives (c.2.body false) (Doc.IsLaid P) :=
    (h c hc).body false
  cases fault with
  | none =>
    cases cleanup with
    | none => exact .pure (hends .nil .nil)
    | some c =>
      exact (hbody (by simp [Form.children])).bind fun b hb => .pure (hends .nil (laid_clause _ hb))
  | some f =>
    refine (hbody (c := f) (by simp [Form.children])).bind fun b hb => ?_
    have hcatch := laid_clause "catch" (laid_faultBody hb)
    cases cleanup with
    | none => exact .pure (hends hcatch .nil)
    | some c =>
      exact (hbody (by simp [Form.children])).bind fun b hb =>
        .pure (hends hcatch (laid_clause _ hb))

end Render

end TreeScribe
