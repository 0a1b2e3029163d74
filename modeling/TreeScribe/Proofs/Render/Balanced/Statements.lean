import TreeScribe.Proofs.Render.Balanced.Basic

/-! The brackets of blocks, lambdas, branches, loops and handlers are closed. -/
namespace TreeScribe

open Render Atoms

namespace Render

variable {env : Env} (henv : env.IsPlain)

include henv

/-! ### Blocks and lambdas -/

theorem balanced_declarations (node : Nat) : ∀ d ∈ declarations env node, d.IsBalanced := by
  have hwritten : ∀ key ∈ env.analysis.blockDeclarations node,
      IsPlain (writtenName key.ty key.name) ∧ AllPlain key.ty.texts := by
    intro key hkey
    obtain ⟨hname, hty⟩ := allPlain_cons.mp (henv.declared node key hkey)
    exact ⟨isPlain_writtenName hname hty, hty⟩
  have hgroups := forall_groups (Q := fun group => AllPlain group.1.texts ∧ AllPlain group.2)
    (fun key hkey => by simpa using (hwritten key hkey).symm)
    (fun key hkey names hnames => by simpa using ⟨hnames.1, hnames.2, (hwritten key hkey).1⟩)
    (List.forall_mem_nil _)
  intro d hd
  obtain ⟨group, hgroup, rfl⟩ := List.mem_map.mp hd
  obtain ⟨hty, hnames⟩ := hgroups group hgroup
  have hlist : Balanced (Atoms.separated ", " (group.2.map varName)) :=
    .separated (by decide) (List.forall_mem_map.mpr fun name hname => .varName (hnames name hname))
  have hname := balanced_typeName henv hty
  grind -linarith

section Lists

omit henv

theorem balanced_followed (previous : Doc) {ds : List Doc} (h : ∀ d ∈ ds, d.IsBalanced) :
    Balanced (followed previous ds) := by
  induction ds generalizing previous with
  | nil => exact .nil
  | cons d ds ih =>
    have hd := h d (List.mem_cons_self ..)
    have hds := ih d fun d' hd' => h d' (List.mem_cons_of_mem _ hd')
    unfold followed
    grind -linarith

theorem balanced_followedDeclarations (previous : Doc) {statements declared : List Doc}
    (hs : ∀ d ∈ statements, d.IsBalanced) (hd : ∀ d ∈ declared, d.IsBalanced) :
    Balanced (followedDeclarations previous statements declared) := by
  induction declared generalizing previous with
  | nil =>
    cases statements with
    | nil => exact .nil
    | cons d ds =>
      have hfirst := hs d (List.mem_cons_self ..)
      have hrest := balanced_followed d fun d' hd' => hs d' (List.mem_cons_of_mem _ hd')
      exact .append (.append (.append .newline .newline) hfirst) hrest
  | cons d ds ih =>
    have hfirst := hd d (List.mem_cons_self ..)
    have hrest := ih d fun d' hd' => hd d' (List.mem_cons_of_mem _ hd')
    unfold followedDeclarations
    grind -linarith

theorem balanced_joinStatements (ty : TypeRef) {declared statements : List Doc}
    (hd : ∀ d ∈ declared, d.IsBalanced) (hs : ∀ d ∈ statements, d.IsBalanced) :
    (joinStatements ty declared statements).IsBalanced := by
  unfold joinStatements Doc.IsBalanced
  dsimp only
  cases declared with
  | nil =>
    cases statements with
    | nil => exact .nil
    | cons d ds =>
      exact .append (hs d (List.mem_cons_self ..))
        (balanced_followed d fun d' hd' => hs d' (List.mem_cons_of_mem _ hd'))
  | cons d ds =>
    exact .append (hd d (List.mem_cons_self ..))
      (balanced_followedDeclarations d hs fun d' hd' => hd d' (List.mem_cons_of_mem _ hd'))

theorem balanced_statementsFrom (last : Position) (afterJump : Bool) {cs : List Child}
    (h : ∀ c ∈ cs, BalancedChild c) :
    Gives (statementsFrom last afterJump cs) fun ds => ∀ d ∈ ds, d.IsBalanced := by
  induction cs generalizing afterJump with
  | nil => exact .pure (by simp)
  | cons c cs ih =>
    have hc := h c (List.mem_cons_self ..)
    have hcs := fun afterJump => ih afterJump fun c' hc' => h c' (List.mem_cons_of_mem _ hc')
    have hlast : Gives (lastStatement last afterJump c) Doc.IsBalanced := by
      unfold lastStatement
      split
      · exact hc.landing _
      · exact hc.inPosition _
    have hnext (d : Doc) (hd : d.IsBalanced) :
        Gives (if d.isEmpty then statementsFrom last afterJump cs
          else do return d.terminated :: (← statementsFrom last d.terminated.endsWithJump cs))
          fun ds => ∀ d ∈ ds, d.IsBalanced := by
      split
      · exact hcs _
      · refine (hcs _).bind fun ds hds => .pure ?_
        exact List.forall_mem_cons.mpr ⟨hd.terminated, hds⟩
    unfold statementsFrom
    dsimp only
    split
    · exact hcs _
    · split
      · exact hlast.bind hnext
      · exact (hc.inPosition _).bind hnext

end Lists

section Blocks

variable {expressions : List Child} (h : ∀ c ∈ expressions, BalancedChild c)

include h

theorem balanced_blockStatements (node : Nat) (ty : TypeRef) (role : BlockRole) :
    Gives (blockStatements env node expressions ty role) Doc.IsBalanced :=
  (balanced_statementsFrom _ _ h).bind fun _ hds =>
    .pure (balanced_joinStatements ty (balanced_declarations henv node) hds)

theorem balanced_nestedBlock (node : Nat) (locals : List Variable) (ty : TypeRef) (returns : Bool) :
    Gives (nestedBlock env node locals expressions ty returns) Doc.IsBalanced := by
  refine (balanced_blockStatements henv h node ty _).bind fun d hd => .pure ?_
  split
  · exact hd
  · exact hd.braced

omit henv h in
theorem balanced_extractedCall {call : ExtractedCall} (hcall : AllPlain (call.name :: call.arguments.map (·.1)))
    (ty : TypeRef) : (extractedCall call ty).IsBalanced := by
  obtain ⟨hname, hargs⟩ := allPlain_cons.mp hcall
  have hpassed : ∀ p ∈ call.arguments, Balanced (Atoms.when p.2 (keyword "ref" ++ space) ++ varName p.1) := by
    intro p hp
    have hp := hargs p.1 (List.mem_map_of_mem hp)
    grind -linarith
  exact .append (.methodName hname) (.parens (.separated (by decide) (List.forall_mem_map.mpr hpassed)))

theorem balanced_valueBlock (node : Nat) (locals : List Variable) (ty : TypeRef) :
    Gives (valueBlock env node locals expressions ty) Doc.IsBalanced := by
  unfold valueBlock
  dsimp only
  split
  · exact balanced_value (h _ (List.mem_cons_self ..))
  · split
    next call hcall =>
      obtain ⟨before, after, hcalls, -⟩ := List.lookup_eq_some_iff.mp hcall
      have hcall := henv.calls (node, call) (hcalls ▸ by simp)
      exact .pure (balanced_extractedCall hcall ty)
    · exact (balanced_blockStatements henv h node ty _).bind fun d hd => .pure hd.braced

end Blocks

section Lambdas

variable {parameters : List Variable} (hparameters : ∀ v ∈ parameters, AllPlain v.texts)

include hparameters

theorem balanced_lambdaParameters (node : Nat) : Balanced (lambdaParameters env node parameters) := by
  have hparameter (typed : Bool) : ∀ as ∈ parameters.map (lambdaParameter env node typed), Balanced as := by
    refine List.forall_mem_map.mpr fun v hv => ?_
    obtain ⟨hname, hty⟩ := allPlain_cons.mp (hparameters v hv)
    have htype : Balanced (env.typeName v.ty) := balanced_typeName henv hty
    have href : Balanced (Atoms.when v.isByRef (keyword "ref" ++ space)) :=
      .when _ (.append (.keyword (by decide)) .space)
    refine .append (.when _ ((href.append htype).append .space)) (.varName ?_)
    split
    · decide
    · exact isPlain_writtenName hname hty
  unfold lambdaParameters
  dsimp only
  split
  · exact .parens (.separated (by decide) (hparameter _))
  · exact .separated (by decide) (hparameter _)

theorem balanced_lambda (node : Nat) {body : Child} (h : BalancedChild body) (returnType ty : TypeRef) :
    Gives (lambda env node parameters body returnType ty) Doc.IsBalanced := by
  have hlead := balanced_lambdaParameters henv hparameters node
  unfold lambda
  dsimp only
  split
  · exact (h.body _).bind fun d hd => .pure (by grind -linarith)
  · exact (balanced_value h).bind fun d hd => .pure (by grind -linarith)

end Lambdas

/-! ### Control flow -/

section Statements

omit henv

theorem balanced_ternary {test ifTrue ifFalse : Child} (h : BalancedChild test) (ht : BalancedChild ifTrue)
    (hf : BalancedChild ifFalse) (ty : TypeRef) :
    Gives (ternary test ifTrue ifFalse ty) Doc.IsBalanced := by
  refine (balanced_operand h _).bind fun d hd => (balanced_operand ht _).bind fun d' hd' => ?_
  refine (balanced_operand hf _).bind fun d'' hd'' => .pure ?_
  grind -linarith

theorem balanced_ifStatement {test ifTrue ifFalse : Child} (h : BalancedChild test)
    (ht : BalancedChild ifTrue) (hf : BalancedChild ifFalse) (ty : TypeRef) (returns : Bool) :
    Gives (ifStatement test ifTrue ifFalse ty returns) Doc.IsBalanced := by
  refine (ht.body _).bind fun taken htaken => (balanced_value h).bind fun condition hcondition => ?_
  dsimp only
  split
  · exact .pure (by grind -linarith)
  · split
    · exact (hf.chained _).bind fun other hother => .pure (by grind -linarith)
    · exact (hf.body _).bind fun other hother => .pure (by grind -linarith)

theorem isPlain_label {target : Target} (h : AllPlain target.texts) : IsPlain target.writtenName := by
  have hnumbered : IsPlain ("label" ++ toString target.id) :=
    IsPlain.append (by decide) (isPlain_nat target.id)
  unfold Target.writtenName
  split
  next name hname =>
    split
    · exact hnumbered
    · exact h name (by simp [Target.texts, hname])
  · exact hnumbered

theorem balanced_loop (env : Env) (node : Nat) {body : Child} (h : BalancedChild body)
    {breakTarget : Option Target} (htarget : ∀ t ∈ breakTarget, AllPlain t.texts) :
    Gives (loop env node body breakTarget) Doc.IsBalanced := by
  have hafter : Balanced ((breakTarget.filter env.analysis.isJumpTarget).elim []
      fun target => newline ++ labelLine target) := by
    cases hfilter : breakTarget.filter env.analysis.isJumpTarget with
    | some target =>
      exact .append .newline (.labelLine (isPlain_label (htarget target (Option.filter_eq_some_iff.mp hfilter).1)))
    | none => exact .nil
  exact (h.body _).bind fun d hd => .pure (by grind -linarith)

theorem balanced_jump (kind : JumpKind) {target : Target} (htarget : AllPlain target.texts)
    {result : Option Child} (h : ∀ c ∈ result, BalancedChild c) (ty : TypeRef) :
    Gives (jump kind target result ty) Doc.IsBalanced := by
  have hname := isPlain_label htarget
  unfold jump
  dsimp only
  cases kind with
  | goto | «break» | «continue» => exact .pure (by grind -linarith)
  | «return» =>
    cases result with
    | none => exact .pure (by grind -linarith)
    | some c => exact (balanced_value (h c rfl)).bind fun d hd => .pure hd.returned

theorem balanced_label (env : Env) {target : Target} (htarget : AllPlain target.texts)
    {defaultValue : Option Child} (h : ∀ c ∈ defaultValue, BalancedChild c) (returns : Bool) :
    Gives (label env target defaultValue returns) Doc.IsBalanced := by
  have hline := Balanced.labelLine (isPlain_label htarget)
  unfold label
  dsimp only
  split
  next c hc =>
    have hc := balanced_value (h c (Option.filter_eq_some_iff.mp hc).1)
    exact hc.bind fun d hd => .pure (by grind -linarith)
  · split
    · exact .pure (by grind -linarith)
    · exact .pure .nil

@[grind ←] theorem balanced_caseBody {d : Doc} (h : d.IsBalanced) : Balanced (caseBody d) :=
  have hbreak : Balanced (newline ++ control "break" ++ text ";") :=
    .append (.append .newline (.control (by decide))) (.text (by decide))
  .indented (.append (.append (.when _ .newline) h) (.when _ hbreak))

theorem balanced_switchCases (returns first : Bool) {cases : List (SwitchCase Child)}
    (h : ∀ c ∈ cases, (∀ t ∈ c.tests, BalancedChild t) ∧ BalancedChild c.body) :
    Gives (switchCases returns first cases) fun r => Balanced r.1 := by
  induction cases generalizing first with
  | nil => exact .pure .nil
  | cons c cs ih =>
    obtain ⟨htests, hbody⟩ := h c (List.mem_cons_self ..)
    have hcs := ih false fun c' hc' => h c' (List.mem_cons_of_mem _ hc')
    refine (balanced_values htests).bind fun ts hts => (hbody.body _).bind fun d hd => ?_
    have hlead : Balanced (ts.flatMap fun t =>
        newline ++ control "case" ++ space ++ t.atoms ++ text ":") := by
      rw [List.flatMap_def]
      refine .flatten (List.forall_mem_map.mpr fun t ht => ?_)
      have := hts t ht
      grind -linarith
    exact hcs.bind fun r hr => .pure (by grind -linarith)

theorem balanced_switch (node : Nat) {subject : Child} {cases : List (SwitchCase Child)}
    {defaultBody : Option Child} {ty : TypeRef}
    (h : ∀ c ∈ (Form.switch subject cases defaultBody ty).children, BalancedChild c)
    (returns : Bool) : Gives (switch node subject cases defaultBody ty returns) Doc.IsBalanced := by
  have hcases : ∀ c ∈ cases, (∀ t ∈ c.tests, BalancedChild t) ∧ BalancedChild c.body := by
    intro k hk
    have hk := fun c hc => h c (Form.mem_children_case hk hc)
    exact ⟨fun t ht => hk t (by simp [ht]), hk k.body (by simp)⟩
  refine (balanced_value (h subject (by simp [Form.children]))).bind fun d hd => ?_
  refine (balanced_switchCases returns true hcases).bind fun r hr => ?_
  cases defaultBody with
  | none => exact .pure (by grind -linarith)
  | some c =>
    have hc := h c (by simp [Form.children])
    exact (hc.body _).bind fun b hb => .pure (by grind -linarith)

end Statements

theorem balanced_catchAtoms {h : Handler Child} (htexts : AllPlain h.texts) : Balanced (catchAtoms env h) := by
  obtain ⟨htest, hcaught⟩ := allPlain_append.mp htexts
  have hname := balanced_typeName henv htest
  unfold catchAtoms
  dsimp only
  split
  next v hv =>
    rw [(Option.filter_eq_some_iff.mp hv).1] at hcaught
    obtain ⟨hvariable, hty⟩ := allPlain_cons.mp hcaught
    have hwritten : IsPlain v.writtenName := isPlain_writtenName hvariable hty
    grind -linarith
  · split <;> grind -linarith

theorem balanced_catchHandler (returns : Bool) {h : Handler Child} (htexts : AllPlain h.texts)
    (hfilter : ∀ c ∈ h.filter, BalancedChild c) (hbody : BalancedChild h.body) :
    Gives (catchHandler env returns h) fun r => Balanced r.1 := by
  have hlead := balanced_catchAtoms henv htexts
  refine (hbody.body _).bind fun d hd => ?_
  cases hf : h.filter with
  | none => exact .pure (by grind -linarith)
  | some c => exact (balanced_value (hfilter c hf)).bind fun f hf => .pure (by grind -linarith)

theorem balanced_attempt {tried : Child} {handlers : List (Handler Child)}
    {cleanup fault : Option Child} {ty : TypeRef}
    (h : ∀ c ∈ (Form.try tried handlers cleanup fault ty).children, BalancedChild c)
    (htexts : ∀ k ∈ handlers, AllPlain k.texts) (returns : Bool) :
    Gives (attempt env tried handlers cleanup fault ty returns) Doc.IsBalanced := by
  have hhandlers : ∀ k ∈ handlers, Gives (catchHandler env returns k) fun r => Balanced r.1 := by
    intro k hmem
    have hk := fun c hc => h c (Form.mem_children_handler hmem hc)
    refine balanced_catchHandler henv returns (htexts k hmem) (fun c hc => hk c ?_) (hk k.body (by simp))
    exact List.mem_append_left _ (Option.mem_toList.mpr hc)
  have hclause {word : String} (hword : IsPlain word) {d : Doc} (hd : d.IsBalanced) :
      Balanced (newline ++ control word ++ newline ++ d.braced.atoms) :=
    .append (.append (.append .newline (.control hword)) .newline) hd.braced
  have hfaultBody {d : Doc} (hd : d.IsBalanced) : (faultBody d).IsBalanced :=
    .append (.append (.append hd .newline) (.control (by decide))) (.text (by decide))
  refine ((h tried (by simp [Form.children])).body _).bind fun d hd => ?_
  refine (Gives.mapM hhandlers).bind fun rs hrs => ?_
  have hlead : Balanced (control "try" ++ newline ++ d.braced.atoms ++ (rs.map (·.1)).flatten) :=
    .append (.append (.append (.control (by decide)) .newline) hd.braced)
      (.flatten (List.forall_mem_map.mpr hrs))
  have hends {f c : Atoms} (hf : Balanced f) (hc : Balanced c) :
      Balanced (control "try" ++ newline ++ d.braced.atoms ++ (rs.map (·.1)).flatten ++ f ++ c) :=
    .append (.append hlead hf) hc
  have hbody {c : Child} (hc : c ∈ (Form.try tried handlers cleanup fault ty).children) :
      Gives (c.2.body false) Doc.IsBalanced :=
    (h c hc).body false
  cases fault with
  | none =>
    cases cleanup with
    | none => exact .pure (hends .nil .nil)
    | some c =>
      exact (hbody (by simp [Form.children])).bind fun b hb =>
        .pure (hends .nil (hclause (by decide) hb))
  | some f =>
    refine (hbody (c := f) (by simp [Form.children])).bind fun b hb => ?_
    have hcatch : Balanced (newline ++ control "catch" ++ newline ++ (faultBody b).braced.atoms) :=
      hclause (by decide) (hfaultBody hb)
    cases cleanup with
    | none => exact .pure (hends hcatch .nil)
    | some c =>
      exact (hbody (by simp [Form.children])).bind fun b hb =>
        .pure (hends hcatch (hclause (by decide) hb))

end Render

end TreeScribe
