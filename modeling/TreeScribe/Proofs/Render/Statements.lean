import TreeScribe.Proofs.Layout.Brackets
import TreeScribe.Proofs.Render.Ending

/-! How statements end.

What is complete as a statement ends with a semicolon, a closing brace or the colon of a label, or else it
is a comment; whatever else is asked for as a statement gets a semicolon (`complete_form`). A list of
statements is therefore made of parts that all end so, one below the other (`Env.writesStatements`). -/
namespace TreeScribe

open Render

/-! ### Atoms that end statements -/

/-- A comment, or code whose last character ends a statement. -/
def Atom.endsStatement : Atom → Bool
  | .token .comment _ => true
  | a => a.code.getLast?.any fun c => c == ';' || c == '\x7d' || c == ':'

namespace Atoms

/-- The last thing that is written ends a statement. -/
def EndStatement (as : Atoms) : Prop :=
  ∃ before a after, as = before ++ a :: after ∧ a.endsStatement = true ∧ ∀ b ∈ after, b.chars = []

/-- Ends as a statement, unless nothing is written at all. -/
def Complete (as : Atoms) : Prop := as = [] ∨ EndStatement as

variable {as bs : Atoms}

namespace EndStatement

theorem of_atom {a : Atom} (h : a.endsStatement = true) : EndStatement [a] :=
  ⟨[], a, [], rfl, h, List.forall_mem_nil _⟩

theorem after (h : EndStatement bs) (as : Atoms) : EndStatement (as ++ bs) := by
  obtain ⟨before, a, rest, rfl, ha, hrest⟩ := h
  exact ⟨as ++ before, a, rest, by simp, ha, hrest⟩

/-- What is not written does not matter. -/
theorem unwritten (h : EndStatement as) (hbs : ∀ b ∈ bs, b.chars = []) : EndStatement (as ++ bs) := by
  obtain ⟨before, a, rest, rfl, ha, hrest⟩ := h
  exact ⟨before, a, rest ++ bs, by simp, ha, List.forall_mem_append.mpr ⟨hrest, hbs⟩⟩

theorem append (h : EndStatement as) (hbs : Complete bs) : EndStatement (as ++ bs) := by
  rcases hbs with rfl | hbs
  · rwa [List.append_nil]
  · exact hbs.after as

theorem semicolon (as : Atoms) : EndStatement (as ++ text ";") := (of_atom rfl).after as

theorem brace (as : Atoms) : EndStatement (bracketed "\x7b" "\x7d" as) := (of_atom rfl).after _

theorem labelLine (target : Target) : EndStatement (Atoms.labelLine target) := (of_atom rfl).after _

theorem enclosed (node : Nat) (h : EndStatement as) : EndStatement (Atoms.enclosed node as) :=
  (h.after _).unwritten (List.forall_mem_singleton.mpr rfl)

end EndStatement

namespace Complete

theorem nil : Complete [] := .inl rfl

theorem append (has : Complete as) (hbs : Complete bs) : Complete (as ++ bs) := by
  rcases has with rfl | has
  · exact hbs
  · exact .inr (has.append hbs)

theorem after (h : EndStatement bs) (as : Atoms) : Complete (as ++ bs) := .inr (h.after as)

theorem flatten {parts : List Atoms} (h : ∀ as ∈ parts, Complete as) : Complete parts.flatten := by
  induction parts with
  | nil => exact nil
  | cons as parts ih =>
    obtain ⟨has, hparts⟩ := List.forall_mem_cons.mp h
    exact has.append (ih hparts)

end Complete

/-! ### Parts one below the other -/

/-- The parts, each on lines of its own, with blank lines between some of them. What is not written may
follow the last one. -/
inductive OnLines : List Atoms → Atoms → Prop where
  | nil : OnLines [] []
  | one (as : Atoms) {rest : Atoms} (hrest : ∀ a ∈ rest, a.chars = []) : OnLines [as] (as ++ rest)
  | cons (as : Atoms) (blank : Bool) {next : Atoms} {parts : List Atoms} {bs : Atoms}
    (h : OnLines (next :: parts) bs) :
    OnLines (as :: next :: parts) (as ++ (newline ++ Atoms.when blank newline ++ bs))

namespace OnLines

variable {parts : List Atoms}

theorem single (as : Atoms) : OnLines [as] as := by
  simpa using one as (List.forall_mem_nil _)

theorem eq_nil (h : OnLines [] as) : as = [] := by
  cases h
  rfl

theorem unwritten (h : OnLines parts as) (hne : parts ≠ []) {rest : Atoms}
    (hrest : ∀ a ∈ rest, a.chars = []) : OnLines parts (as ++ rest) := by
  induction h with
  | nil => exact absurd rfl hne
  | one as h =>
    rw [List.append_assoc]
    exact .one as (List.forall_mem_append.mpr ⟨h, hrest⟩)
  | cons as blank _ ih =>
    simp only [List.append_assoc]
    simpa only [List.append_assoc] using cons as blank (ih (List.cons_ne_nil _ _))

/-- Statements one below the other end as the last of them. -/
theorem endStatement (h : OnLines parts as) (hne : parts ≠ []) (hparts : ∀ part ∈ parts, EndStatement part) :
    EndStatement as := by
  induction h with
  | nil => exact absurd rfl hne
  | one as hrest => exact (hparts as (List.mem_singleton_self as)).unwritten hrest
  | cons as blank _ ih =>
    have hrest := ih (List.cons_ne_nil _ _) fun part hpart => hparts part (List.mem_cons_of_mem _ hpart)
    exact (hrest.after _).after _

theorem complete (h : OnLines parts as) (hparts : ∀ part ∈ parts, EndStatement part) : Complete as := by
  cases parts with
  | nil => exact .inl h.eq_nil
  | cons part parts => exact .inr (h.endStatement (List.cons_ne_nil _ _) hparts)

end OnLines

end Atoms

open Atoms

/-! ### Documents -/

namespace Doc

/-- What counts as a complete statement is one, if anything is written. -/
def IsComplete (d : Doc) : Prop := d.isTerminated = true → Complete d.atoms

variable {d : Doc}

theorem IsComplete.of_open (h : d.isTerminated = false) : d.IsComplete :=
  fun hterminated => Bool.noConfusion (h.symm.trans hterminated)

theorem IsComplete.of_end (h : EndStatement d.atoms) : d.IsComplete := fun _ => .inr h

theorem endStatement_braced (d : Doc) : EndStatement d.braced.atoms := .brace _

theorem endStatement_noted (h : EndStatement d.atoms) (node : Nat) : EndStatement (d.noted node).atoms := by
  unfold Doc.noted
  split
  · exact h
  · exact h.unwritten (List.forall_mem_singleton.mpr rfl)

theorem complete_noted (h : Complete d.atoms) (node : Nat) : Complete (d.noted node).atoms := by
  rcases h with hnil | hend
  · have hempty : d.isEmpty = true := List.isEmpty_iff.mpr hnil
    rw [Doc.noted, if_pos hempty]
    exact .inl hnil
  · exact .inr (endStatement_noted hend node)

theorem IsComplete.noted (h : d.IsComplete) (node : Nat) : (d.noted node).IsComplete := by
  have hsame : (d.noted node).isTerminated = d.isTerminated := congrArg DocEnding.isTerminated (d.ending_noted node)
  exact fun hterminated => complete_noted (h (hsame ▸ hterminated)) node

/-- What is asked for as a statement is one, with a semicolon where it needs one. -/
theorem IsComplete.terminated (h : d.IsComplete) : Complete d.terminated.atoms := by
  unfold Doc.terminated
  split
  next hterminated => exact h hterminated
  · exact .inr (.semicolon _)

theorem IsComplete.endStatement_terminated (h : d.IsComplete) (hne : d.isEmpty = false) :
    EndStatement d.terminated.atoms := by
  have hatoms : d.atoms ≠ [] := by simpa [Doc.isEmpty] using hne
  unfold Doc.terminated
  split
  next hterminated => exact (h hterminated).resolve_left hatoms
  · exact .semicolon _

end Doc

theorem Atoms.OnLines.noted {parts : List Atoms} {d : Doc} (h : OnLines parts d.atoms) (node : Nat) :
    OnLines parts (d.noted node).atoms := by
  unfold Doc.noted
  split
  · exact h
  next hwritten =>
    refine h.unwritten ?_ (List.forall_mem_singleton.mpr rfl)
    rintro rfl
    exact hwritten (List.isEmpty_iff.mpr h.eq_nil)

namespace DocEnding

variable {env : Env}

theorem isTerminated_concat (ks : List Child) : (concat ks).isTerminated = false := by
  unfold concat
  split <;> rfl

theorem isTerminated_member (receiver : Option Child) (info : MemberInfo) :
    (member env receiver info).isTerminated = false := by
  unfold member
  repeat' split
  all_goals rfl

theorem isTerminated_extension (name : String) (display : Option String) (isLeaf : Bool) :
    (extension name display isLeaf).isTerminated = false := by
  unfold extension
  split <;> rfl

end DocEnding

/-- A result that is no complete statement. -/
theorem Ends.isComplete {x : Rendering Doc} {e : DocEnding} (h : Ends x e) (he : e.isTerminated = false) :
    Gives x Doc.IsComplete :=
  h.mono fun _ hd => .of_open ((congrArg DocEnding.isTerminated hd).trans he)

namespace Render

/-- All that is made of a child to be written as a statement is complete if it counts as such. -/
structure CompleteChild (c : Child) : Prop where
  inPosition : ∀ position, Gives (c.2.inPosition position) Doc.IsComplete
  chained : ∀ returns, isChained c.1 returns = true → Gives (c.2.chained returns) fun d => EndStatement d.atoms
  landing : ∀ returns, Gives (c.2.landing returns) Doc.IsComplete

variable (env : Env)

/-! ### Blocks -/

/-- The declarations and statements of a block. -/
def statementList (node : Nat) (expressions : List Child) (ty : TypeRef) (role : BlockRole) :
    Rendering (List Doc) := do
  let declared := declarations env node
  let statements ← statementsFrom (role.lastPosition ty) (declared.getLast?.any (·.endsWithJump)) expressions
  return declared ++ statements

theorem endStatement_declarations (node : Nat) : ∀ d ∈ declarations env node, EndStatement d.atoms :=
  List.forall_mem_map.mpr fun _ _ => .semicolon _

theorem endStatement_statementsFrom (last : Position) (afterJump : Bool) {cs : List Child}
    (h : ∀ c ∈ cs, CompleteChild c) :
    Gives (statementsFrom last afterJump cs) fun ds => ∀ d ∈ ds, EndStatement d.atoms := by
  induction cs generalizing afterJump with
  | nil => exact .pure (List.forall_mem_nil _)
  | cons c cs ih =>
    have hc := h c (List.mem_cons_self ..)
    have hcs := fun afterJump => ih afterJump fun c' hc' => h c' (List.mem_cons_of_mem _ hc')
    have hlast : Gives (lastStatement last afterJump c) Doc.IsComplete := by
      unfold lastStatement
      split
      · exact hc.landing _
      · exact hc.inPosition _
    have hnext (d : Doc) (hd : d.IsComplete) :
        Gives (if d.isEmpty then statementsFrom last afterJump cs
          else do return d.terminated :: (← statementsFrom last d.terminated.endsWithJump cs))
          fun ds => ∀ d ∈ ds, EndStatement d.atoms := by
      split
      · exact hcs _
      next hwritten =>
        refine (hcs _).bind fun ds hds => .pure ?_
        exact List.forall_mem_cons.mpr ⟨hd.endStatement_terminated (Bool.not_eq_true _ |>.mp hwritten), hds⟩
    unfold statementsFrom
    dsimp only
    split
    · exact hcs _
    · split
      · exact hlast.bind hnext
      · exact (hc.inPosition _).bind hnext

theorem onLines_followed (as : Atoms) (previous : Doc) (ds : List Doc) :
    OnLines (as :: ds.map (·.atoms)) (as ++ followed previous ds) := by
  induction ds generalizing as previous with
  | nil => exact .one as (List.forall_mem_nil _)
  | cons d ds ih =>
    have hcons := OnLines.cons as (blankBetween previous d) (ih d.atoms d)
    simpa only [followed, List.map_cons, List.append_assoc] using hcons

theorem onLines_followedDeclarations (as : Atoms) (previous : Doc) (statements declared : List Doc) :
    OnLines (as :: (declared ++ statements).map (·.atoms))
      (as ++ followedDeclarations previous statements declared) := by
  induction declared generalizing as previous with
  | nil =>
    cases statements with
    | nil => exact .one as (List.forall_mem_nil _)
    | cons d ds =>
      have hcons := OnLines.cons as true (onLines_followed d.atoms d ds)
      simpa only [followedDeclarations, List.nil_append, List.map_cons, Atoms.when, if_true, List.append_assoc]
        using hcons
  | cons d ds ih =>
    have hcons := OnLines.cons as (blankBetween previous d) (ih d.atoms d)
    simpa only [followedDeclarations, List.cons_append, List.map_cons, List.append_assoc] using hcons

/-- The declarations and statements of a block stand one below the other. -/
theorem onLines_joinStatements (ty : TypeRef) (declared statements : List Doc) :
    OnLines ((declared ++ statements).map (·.atoms)) (joinStatements ty declared statements).atoms := by
  unfold joinStatements
  cases declared with
  | nil =>
    cases statements with
    | nil => exact .nil
    | cons d ds => exact onLines_followed d.atoms d ds
  | cons d ds => exact onLines_followedDeclarations d.atoms d statements ds

section Blocks

variable {expressions : List Child} (h : ∀ c ∈ expressions, CompleteChild c)

include h

theorem endStatement_statementList (node : Nat) (ty : TypeRef) (role : BlockRole) :
    Gives (statementList env node expressions ty role) fun ds => ∀ d ∈ ds, EndStatement d.atoms :=
  (endStatement_statementsFrom _ _ h).bind fun _ hds =>
    .pure (List.forall_mem_append.mpr ⟨endStatement_declarations env node, hds⟩)

theorem complete_blockStatements (node : Nat) (ty : TypeRef) (role : BlockRole) :
    Gives (blockStatements env node expressions ty role) fun d => Complete d.atoms := by
  refine (endStatement_statementsFrom _ _ h).bind fun ds hds => .pure ?_
  refine (onLines_joinStatements ty (declarations env node) ds).complete (List.forall_mem_map.mpr ?_)
  exact List.forall_mem_append.mpr ⟨endStatement_declarations env node, hds⟩

theorem complete_nestedBlock (node : Nat) (locals : List Variable) (ty : TypeRef) (returns : Bool) :
    Gives (nestedBlock env node locals expressions ty returns) Doc.IsComplete := by
  refine (complete_blockStatements env h node ty _).bind fun d hd => .pure ?_
  split
  · exact fun _ => hd
  · exact .of_end d.endStatement_braced

theorem complete_valueBlock (node : Nat) (locals : List Variable) (ty : TypeRef) :
    Gives (valueBlock env node locals expressions ty) Doc.IsComplete := by
  unfold valueBlock
  dsimp only
  split
  · exact (h _ (List.mem_cons_self ..)).inPosition .value
  · split
    · exact .pure (.of_open rfl)
    · exact .after fun d => .pure (.of_end d.endStatement_braced)

end Blocks

/-! ### Control flow -/

/-- The last branch of a chain ends it. -/
theorem endStatement_ifStatement (test ifTrue : Child) {ifFalse : Child} (ty : TypeRef) (returns : Bool)
    (h : isChained ifFalse.1 returns = true → Gives (ifFalse.2.chained returns) fun d => EndStatement d.atoms) :
    Gives (ifStatement test ifTrue ifFalse ty returns) fun d => EndStatement d.atoms := by
  refine .after fun taken => .after fun condition => ?_
  dsimp only
  split
  · exact .pure (taken.endStatement_braced.after _)
  · split
    next hchained => exact (h hchained).bind fun other hother => .pure (hother.after _)
    · exact .after fun other => .pure (other.endStatement_braced.after _)

theorem endStatement_loop (node : Nat) (body : Child) (breakTarget : Option Target) :
    Gives (loop env node body breakTarget) fun d => EndStatement d.atoms := by
  refine .after fun d => .pure (EndStatement.append ?_ ?_)
  · exact (d.endStatement_braced.enclosed node).after _
  · split
    · exact .after (.labelLine _) _
    · exact .nil

theorem complete_label (target : Target) (defaultValue : Option Child) (returns : Bool) :
    Gives (label env target defaultValue returns) Doc.IsComplete := by
  unfold label
  dsimp only
  split
  · exact .after fun d => .pure (.of_end (.after (.semicolon _) _))
  · split
    next hshown =>
      rw [hshown]
      exact .pure (.of_end (.labelLine target))
    · exact .pure fun _ => .nil

theorem endStatement_switch (node : Nat) (subject : Child) (cases : List (SwitchCase Child))
    (defaultBody : Option Child) (ty : TypeRef) (returns : Bool) :
    Gives (switch node subject cases defaultBody ty returns) fun d => EndStatement d.atoms := by
  refine .after fun subject => .after fun r => ?_
  have hend {as bs : Atoms} : EndStatement (as ++ enclosed node (bracketed "\x7b" "\x7d" bs)) :=
    ((EndStatement.brace bs).enclosed node).after as
  cases defaultBody with
  | none => exact .pure hend
  | some c => exact .after fun d => .pure hend

theorem endStatement_attempt (tried : Child) (handlers : List (Handler Child)) (cleanup fault : Option Child)
    (ty : TypeRef) (returns : Bool) :
    Gives (attempt env tried handlers cleanup fault ty returns) fun d => EndStatement d.atoms := by
  have hhandlers : Gives (handlers.mapM (catchHandler env returns)) fun rs => ∀ r ∈ rs, Complete r.1 := by
    refine Gives.mapM fun handler _ => .after fun d => ?_
    dsimp only
    split
    · exact .after fun f => .pure (.after d.endStatement_braced _)
    · exact .pure (.after d.endStatement_braced _)
  refine .after fun d => hhandlers.bind fun rs hrs => ?_
  simp only [pure_bind]
  have hlead : EndStatement (control "try" ++ newline ++ d.braced.atoms ++ (rs.map (·.1)).flatten) :=
    (d.endStatement_braced.after _).append (.flatten (List.forall_mem_map.mpr hrs))
  have hclause (lead : Atoms) (d : Doc) : Complete (lead ++ d.braced.atoms) := .after d.endStatement_braced _
  cases fault with
  | none =>
    cases cleanup with
    | none => exact .pure ((hlead.append .nil).append .nil)
    | some c => exact .after fun d' => .pure ((hlead.append .nil).append (hclause _ d'))
  | some f =>
    refine .after fun d' => ?_
    have hfault := hlead.append (hclause (newline ++ control "catch" ++ newline) (faultBody d'))
    cases cleanup with
    | none => exact .pure (hfault.append .nil)
    | some c => exact .after fun d'' => .pure (hfault.append (hclause _ d''))

/-! ### Values -/

theorem complete_unary (op : UnaryOp) {c : Child} (h : CompleteChild c) (ty : TypeRef)
    (method : Option MethodInfo) : Gives (unary env op (some c) ty method) Doc.IsComplete := by
  have hconvert (x : Doc → Rendering Doc) (hx : ∀ d, Gives (x d) Doc.IsComplete) :
      Gives (if c.1.ty = ty then value c else do x (← operand c Level.unary)) Doc.IsComplete := by
    split
    · exact h.inPosition .value
    · exact .after hx
  unfold unary
  dsimp only
  split
  · exact (ends_staticCall env _ _ _ _ _).isComplete rfl
  · cases op with
    | isTrue => exact h.inPosition .value
    | convert | convertChecked | unbox => exact hconvert _ fun d => .pure (.of_open rfl)
    | _ => exact .after fun _ => .pure (.of_open rfl)

theorem complete_defaultValue (ty : TypeRef) : (defaultValue env ty).IsComplete := by
  unfold defaultValue
  split
  · exact fun _ => .nil
  · exact .of_open rfl

theorem commentLine_ne_empty (line : List Char) : commentLine line ≠ "" := by
  unfold commentLine
  dsimp only
  split
  next hslashes =>
    obtain ⟨rest, hrest⟩ := List.isPrefixOf_iff_prefix.mp hslashes
    simp [← hrest]
  · simp

theorem complete_comment (s : String) : (comment s).IsComplete := by
  have htoken (line : List Char) : EndStatement (token .comment (commentLine line)) := by
    have hempty : (commentLine line).isEmpty = false := by simpa using commentLine_ne_empty line
    rw [token, hempty]
    exact .of_atom rfl
  have hlines (line : List Char) (lines : List (List Char)) :
      EndStatement (commentLines (line :: lines)) := by
    induction lines generalizing line with
    | nil => exact htoken line
    | cons line' lines ih => exact (ih line').after _
  intro _
  show Complete (commentLines (Text.lines s.toList))
  cases Text.lines s.toList with
  | nil => exact .nil
  | cons line lines => exact .inr (hlines line lines)

/-! ### Whole trees -/

section Tree

variable {env : Env} (hcustom : env.settings.custom = []) {node : Nat} {form : Form Expr}
  (h : ∀ e ∈ form.children, CompleteChild (e, env.renderer e))

include hcustom h

theorem complete_builtIn :
    Gives (builtIn env node (form.map fun e => (e, env.renderer e))) Doc.IsComplete := by
  have hends : Ends (builtIn env node (form.map fun e => (e, env.renderer e)))
      (DocEnding.asValue env node (form.map fun e => (e, env.ending e))) :=
    Env.ends_builtIn fun e _ => Env.ending_renderer hcustom e
  cases form with
  | unary op operand ty method =>
    cases operand with
    | none => exact hends.isComplete rfl
    | some c => exact complete_unary env op (h c (List.mem_singleton_self c)) ty method
  | conditional test ifTrue ifFalse ty =>
    show Gives (if Node.isTernary ifTrue ifFalse ty then _ else _) _
    split
    · exact (ends_ternary _ _ _ _).isComplete rfl
    · refine (endStatement_ifStatement _ _ ty false ?_).mono fun _ hd => .of_end hd
      exact (h ifFalse (by simp [Form.children])).chained false
  | block locals expressions ty =>
    exact complete_valueBlock env (List.forall_mem_map.mpr h) node locals ty
  | call receiver method args =>
    refine hends.isComplete ?_
    show DocEnding.isTerminated (if env.settings.writesConcat method then _ else {}) = false
    split
    · exact DocEnding.isTerminated_concat _
    · rfl
  | member receiver info => exact hends.isComplete (DocEnding.isTerminated_member _ _)
  | loop body breakTarget continueTarget =>
    exact (endStatement_loop env node _ breakTarget).mono fun _ hd => .of_end hd
  | label target defaultValue => exact complete_label env target _ false
  | switch subject cases defaultBody ty =>
    exact (endStatement_switch node _ _ _ ty false).mono fun _ hd => .of_end hd
  | «try» tried handlers cleanup fault ty =>
    exact (endStatement_attempt env _ _ _ _ ty false).mono fun _ hd => .of_end hd
  | default ty => exact .pure (complete_defaultValue env ty)
  | comment s => exact .pure (complete_comment s)
  | extension name ty display operands => exact hends.isComplete (DocEnding.isTerminated_extension _ _ _)
  | _ => exact hends.isComplete rfl

theorem complete_asValue :
    Gives (asValue env node (form.map fun e => (e, env.renderer e))) Doc.IsComplete := by
  unfold asValue
  rw [Env.custom?_eq_none hcustom]
  exact complete_builtIn hcustom h

omit hcustom in
theorem complete_conditional {test ifTrue ifFalse : Expr} {ty : TypeRef}
    (hform : form = .conditional test ifTrue ifFalse ty) (returns : Bool) :
    Gives (ifStatement (test, env.renderer test) (ifTrue, env.renderer ifTrue)
      (ifFalse, env.renderer ifFalse) ty returns) fun d => EndStatement d.atoms := by
  subst hform
  exact endStatement_ifStatement _ _ ty returns ((h ifFalse (by simp [Form.children])).chained returns)

theorem complete_asStatement :
    Gives (asStatement env node (form.map fun e => (e, env.renderer e))) Doc.IsComplete := by
  unfold asStatement
  rw [Env.custom?_eq_none hcustom]
  cases form with
  | block locals expressions ty =>
    exact complete_nestedBlock env (List.forall_mem_map.mpr h) node locals ty false
  | conditional test ifTrue ifFalse ty =>
    exact (complete_conditional h rfl false).mono fun _ hd => .of_end hd
  | _ => exact complete_asValue hcustom h

theorem complete_asReturning :
    Gives (asReturning env node (form.map fun e => (e, env.renderer e))) Doc.IsComplete := by
  have hreturned (d : Doc) (hd : d.IsComplete) :
      Doc.IsComplete (if isNotReturned (form.map fun e => (e, env.renderer e)) then d else d.returned) := by
    split
    · exact hd
    · exact .of_open rfl
  have hcomplete : Gives (asValue env node (form.map fun e => (e, env.renderer e))) Doc.IsComplete :=
    complete_asValue hcustom h
  have hvalue := hcomplete.bind fun d hd => Gives.pure (hreturned d hd)
  unfold asReturning
  rw [Env.custom?_eq_none hcustom]
  cases form with
  | block locals expressions ty =>
    exact complete_nestedBlock env (List.forall_mem_map.mpr h) node locals ty true
  | conditional test ifTrue ifFalse ty =>
    show Gives (if Node.isTernary ifTrue ifFalse ty then _ else _) _
    split
    · exact hvalue
    · exact (complete_conditional h rfl _).mono fun _ hd => .of_end hd
  | switch subject cases defaultBody ty =>
    exact (endStatement_switch node _ _ _ ty _).mono fun _ hd => .of_end hd
  | «try» tried handlers cleanup fault ty =>
    exact (endStatement_attempt env _ _ _ _ ty _).mono fun _ hd => .of_end hd
  | label target defaultValue => exact complete_label env target _ true
  | _ => exact hvalue

theorem complete_asBody (returns : Bool) :
    Gives (asBody env node (form.map fun e => (e, env.renderer e)) returns) fun d => Complete d.atoms := by
  have hsingle : Gives (do
      let d ← if returns then asReturning env node (form.map fun e => (e, env.renderer e))
        else asStatement env node (form.map fun e => (e, env.renderer e))
      return (d.noted node).terminated) fun d => Complete d.atoms := by
    cases returns with
    | true => exact (complete_asReturning hcustom h).bind fun d hd => .pure (hd.noted node).terminated
    | false => exact (complete_asStatement hcustom h).bind fun d hd => .pure (hd.noted node).terminated
  have hnone : env.settings.custom? .block = none := by simp [Settings.custom?, hcustom]
  unfold asBody
  cases form with
  | block locals expressions ty =>
    dsimp only [Form.map]
    rw [hnone]
    refine (complete_blockStatements env (List.forall_mem_map.mpr h) node ty _).bind fun d hd => .pure ?_
    exact d.complete_noted hd node
  | _ => exact hsingle

/-- **What counts as a complete statement is one** if that is so for all that is made of the children. -/
theorem complete_form :
    CompleteChild (.mk node form, renderer env node (form.map fun e => (e, env.renderer e))) where
  inPosition
    | .value => (complete_asValue hcustom h).map fun d hd => by
        unfold notedValue
        split
        · exact hd
        · exact hd.noted node
    | .statement => (complete_asStatement hcustom h).map fun _ hd => hd.noted node
    | .returning => (complete_asReturning hcustom h).map fun _ hd => hd.noted node
  chained returns hchained := by
    cases form with
    | conditional test ifTrue ifFalse ty =>
      exact (complete_conditional h rfl returns).map fun d hd => d.endStatement_noted hd node
    | _ => exact Bool.noConfusion hchained
  landing returns := by
    refine Gives.map (P := Doc.IsComplete) ?_ fun _ hd => hd.noted node
    cases form with
    | label target defaultValue => exact complete_label env target _ returns
    | _ => exact complete_asReturning hcustom h

end Tree

end Render

/-! ### The statements of a tree -/

namespace Env

open Render

/-- The statements that are written for a tree: those of a block, or else the one that is made of it. -/
def statements (env : Env) (e : Expr) (role : BlockRole) : Rendering (List Doc) :=
  match e.form with
  | .block _ expressions ty =>
    statementList env e.label (expressions.map fun c => (c, env.renderer c)) ty role
  | _ => do return [← env.body e (role == .return)]

/-- All statements of a tree end as statements, and they are what is written for it. -/
structure WritesStatements (env : Env) (e : Expr) : Prop where
  /-- One that is not in a list may be left out. -/
  ends : ∀ role, Gives (env.statements e role) fun ds => ∀ d ∈ ds, Complete d.atoms
  body : ∀ returns declared,
    OnLines (((env.statements e (.ofBody returns)).run declared).1.map (·.atoms))
      ((env.body e returns).run declared).1.atoms
  /-- So is a block that is nested in statements or stands for a value. -/
  block : ∀ locals expressions ty, e.form = .block locals expressions ty → ∀ role declared,
    OnLines (((env.statements e role).run declared).1.map (·.atoms))
      ((blockStatements env e.label (expressions.map fun c => (c, env.renderer c)) ty role).run declared).1.atoms
  /-- What is added to the statements of a case or of a fault ends as a statement. -/
  added : ∀ returns, Gives (env.body e returns) fun d =>
    (∃ as, caseBody d = indented as ∧ Complete as) ∧ EndStatement (faultBody d).atoms

variable {env : Env} (hcustom : env.settings.custom = [])

include hcustom

/-- **What counts as a complete statement is one**, whatever is made of the tree. -/
theorem complete_renderer (e : Expr) : CompleteChild (e, env.renderer e) := by
  induction e using Node.induction with
  | h node form ih =>
    rw [renderer_mk]
    exact complete_form hcustom ih

theorem complete_body (e : Expr) (returns : Bool) : Gives (env.body e returns) fun d => Complete d.atoms := by
  cases e with
  | mk node form =>
    unfold Env.body
    rw [renderer_mk]
    exact complete_asBody hcustom (fun e _ => complete_renderer hcustom e) returns

omit hcustom in
theorem complete_caseBody {d : Doc} (h : Complete d.atoms) : ∃ as, caseBody d = indented as ∧ Complete as := by
  refine ⟨_, rfl, ?_⟩
  cases d.endsWithJump with
  | false => exact .after (.after (.of_atom rfl) _) _
  | true =>
    have hlead : Complete (Atoms.when (!d.isEmpty) newline ++ d.atoms) := by
      rcases h with hnil | hend
      · exact .inl (by simp [Doc.isEmpty, hnil, Atoms.when])
      · exact .after hend _
    exact hlead.append .nil

/-- **Every statement ends with a semicolon, a closing brace or a colon, or is a comment.** -/
theorem writesStatements (e : Expr) : env.WritesStatements e where
  ends role := by
    unfold statements
    split
    · refine (endStatement_statementList env (List.forall_mem_map.mpr fun c _ => ?_) _ _ role).mono ?_
      · exact complete_renderer hcustom c
      · exact fun ds hds d hd => .inr (hds d hd)
    · exact (complete_body hcustom e _).bind fun d hd => .pure (List.forall_mem_singleton.mpr hd)
  body returns declared := by
    cases e with
    | mk node form =>
      cases form with
      | block locals expressions ty =>
        have hnone : env.settings.custom? .block = none := by simp [Settings.custom?, hcustom]
        have hbody : env.body (.mk node (.block locals expressions ty)) returns = (do
            let d ← blockStatements env node (expressions.map fun c => (c, env.renderer c)) ty (.ofBody returns)
            return d.noted node) := by
          unfold Env.body
          rw [renderer_mk]
          show asBody env node (.block locals (expressions.map fun c => (c, env.renderer c)) ty) returns = _
          unfold asBody
          dsimp only
          rw [hnone]
          rfl
        rw [hbody]
        exact (onLines_joinStatements ty _ _).noted node
      | _ =>
        have hrole : (BlockRole.ofBody returns == .return) = returns := by cases returns <;> rfl
        unfold statements
        rw [hrole]
        exact .single _
  block locals expressions ty hform role declared := by
    unfold statements
    rw [hform]
    exact onLines_joinStatements ty _ _
  added returns := (complete_body hcustom e returns).mono fun d hd =>
    ⟨complete_caseBody hd, .semicolon _⟩

end Env

end TreeScribe
