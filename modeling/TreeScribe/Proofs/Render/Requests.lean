import TreeScribe.Proofs.Render.Requests.Covers

/-! Where rendering asks for a node, as against where the visit met it.

The visit decides the position of a node from that of its parent, and rendering decides it again from
the way in which the parent is asked for. The two agree (`Env.meets_of_asks`): whatever rendering asks
for, the visit has met in a position that fits. Two constructs could part them. A block that became a
method is visited as the body of that method, so it has to be written as a call; and after `else` a
conditional is taken as one that gives a value, even if it gives none. -/
namespace TreeScribe

open Move Moves

/-! ### All that is asked of a node -/

section Form

variable (strict : Prop) (env : Env) (mode : AnalysisMode) (node : Nat) (form : Form Expr)

/-- A block that became a method has to be written as a call. -/
def Form.IsServed (env : Env) (mode : AnalysisMode) (node : Nat) (form : Form Expr) : Prop :=
  ∀ locals es ty, form = .block locals es ty → mode = .source →
    Form.isTransparent locals es = false → (env.calls.lookup node).isSome = true

/-- The node is an assignment, and the number is its own. -/
def Form.Leads (node : Nat) (form : Form Expr) (n : Nat) : Prop :=
  n = node ∧ ∃ op left right ty m, form = .binary op left right ty m ∧ op.isAssignment = true

theorem covers_valueBlock {leads : Nat → Prop} {locals : List Variable} {es : List Expr} {ty : TypeRef}
    (hserved : mode = .source → Form.isTransparent locals es = false →
      (env.calls.lookup node).isSome = true) :
    Covers strict leads (Moves.valueBlock mode node locals es ty).visits
      (Arrangement.valueBlock env node locals es ty) := by
  have hblock : Covers strict leads (Moves.block node locals es ty .value).visits
      (Arrangement.block env es ty .value) :=
    covers_statements env false fun e _ afterJump => .inl rfl
  unfold Moves.valueBlock
  split
  next h =>
    simp only [Bool.and_eq_true, beq_iff_eq, Bool.not_eq_true'] at h
    unfold Arrangement.valueBlock
    split
    · cases h.2
    · rw [if_pos (hserved h.1 h.2)]
      exact .nil
  · unfold Arrangement.valueBlock
    split
    · exact .value (.inr (List.mem_cons_self ..))
    · split
      · exact .nil
      · exact hblock

/-- A node that was visited as a value and is asked for as one. -/
theorem covers_asValue (hserved : form.IsServed env mode node) :
    Covers strict (form.Leads node) (visitsAll (Moves.value env.settings mode node form))
      (Arrangement.asValue env node form) := by
  have happend {es : List Expr} {first moves : List Move} (h : Seen (visitsAll moves) es) :
      Seen (visitsAll (first ++ moves)) es := by
    intro e he
    rw [visitsAll_append]
    exact (h e he).imp id fun h => List.mem_append_right _ h
  have hvalues (first : List Move) (es : List Expr) :
      Covers strict (form.Leads node) (visitsAll (first ++ Moves.values es)) (Arrangement.values es) :=
    .values (happend (seen_values es))
  have hboth (m : Move) (es es' : List Expr) :
      Covers strict (form.Leads node) (visitsAll (m :: Moves.values es ++ Moves.values es'))
        (Arrangement.values (es ++ es')) := by
    have heq : Moves.values es ++ Moves.values es' = Moves.values (es ++ es') :=
      List.map_append.symm
    rw [List.cons_append, heq]
    exact hvalues [m] (es ++ es')
  cases form with
  | constant c => exact .nil
  | parameter v => exact .one trivial
  | binary op left right ty m =>
    unfold Moves.value Arrangement.asValue
    dsimp only
    split
    next h => exact covers_assignment env.settings ⟨rfl, op, left, right, ty, m, rfl, h⟩ op left right false
    · exact hvalues _ _
  | unary op operand ty m =>
    refine .values fun e he => ?_
    obtain rfl : operand = some e := by simpa using he
    unfold Moves.value Moves.unary
    dsimp only
    split
    next h => exact .inl (Node.isLeaf_of_asParameter? h)
    · simp [Move.visits]
  | conditional test ifTrue ifFalse ty =>
    have hmem {e : Expr} (h : e ∈ [test, ifTrue, ifFalse]) : (e, Position.value) ∈
        visitsAll (Moves.value env.settings mode node (.conditional test ifTrue ifFalse ty)) := by
      rw [Moves.value, visits_values]
      exact List.mem_map_of_mem h
    unfold Arrangement.asValue
    dsimp only
    split
    · exact .values_of_visits _
    · refine covers_ifStatement (hmem (by simp)) (hmem (by simp)) trivial (fun _ => hmem (by simp))
        trivial fun h => ?_
      unfold Render.isChained at h
      split at h
      next test' ifTrue' ifFalse' ty' hform =>
        exact ⟨test', ifTrue', ifFalse', ty', hform, fun h => absurd h Bool.false_ne_true⟩
      · cases h
  | block locals es ty =>
    have hone : Moves.value env.settings mode node (.block locals es ty) =
        [Moves.valueBlock mode node locals es ty] :=
      rfl
    rw [hone, visitsAll_cons, visitsAll_nil, List.append_nil]
    exact covers_valueBlock strict env mode node (hserved locals es ty rfl)
  | lambda name parameters lambdaBody returnType ty =>
    unfold Moves.value Moves.lambda
    refine .enclosed ?_
    dsimp only
    split
    · exact .body (by simp [Move.visits, Moves.body])
    · exact .value (.inr (by simp [Move.visits]))
  | call receiver m args => exact covers_call env receiver m args
  | invoke target args ty => exact .values_of_visits _
  | member receiver info => exact hvalues _ _
  | new creation =>
    have hseen : Seen (visitsAll (Moves.value env.settings mode node (.new creation)))
        creation.arguments :=
      happend (seen_arguments _ _)
    unfold Arrangement.asValue
    dsimp only
    split
    · refine .values fun e he => ?_
      obtain ⟨⟨name, _⟩, hmem, rfl⟩ := List.mem_map.mp he
      exact hseen _ (List.of_mem_zip hmem).2
    · exact covers_arguments hseen _
  | newArray elementType expressions bounds => exact hvalues _ _
  | memberInit creation bindings => exact hboth (.note creation.ty) _ _
  | listInit creation items => exact hboth (.note creation.ty) _ _
  | loop loopBody breakTarget continueTarget =>
    exact .append (.enclosed (.statement (List.mem_cons_self ..))) .landing
  | jump kind target result ty =>
    unfold Arrangement.asValue
    dsimp only
    split
    · exact hvalues _ _
    · exact .nil
  | label target defaultValue => exact .landing
  | switch subject cases defaultBody ty => exact covers_switch _ _ _ _ fun _ => trivial
  | «try» tried handlers cleanup fault ty => exact covers_attempt _ _ _ _ fun _ => trivial
  | default ty => exact .nil
  | index object indexer args ty => exact .values_of_visits _
  | typeTest expression operand exact => exact .value (.inr (List.mem_cons_self ..))
  | comment s => exact .nil
  | extension name ty display operands =>
    unfold Arrangement.asValue
    dsimp only
    split
    · exact .nil
    · exact .values_of_visits _

/-- Every expression of a block is visited, in whatever position the block is. -/
theorem visits_block_ofForm (settings : Settings) (mode : AnalysisMode) (locals : List Variable)
    (es : List Expr) (ty : TypeRef) (position : Position) :
    ∃ last, visitsAll (Moves.ofForm settings mode node (.block locals es ty) position) =
        visitsAll (Moves.sequence last es) ∧
      (position = .statement → last = .statement) ∧
      (position = .returning → last = BlockRole.return.lastPosition ty) := by
  cases position with
  | value =>
    refine ⟨_, (List.append_nil _).trans (visits_valueBlock mode node locals es ty), ?_, ?_⟩
    · exact nofun
    · exact nofun
  | statement => exact ⟨_, List.append_nil _, fun _ => rfl, nofun⟩
  | returning => exact ⟨_, List.append_nil _, nofun, fun _ => rfl⟩

/-- The position in which the branches of a conditional are visited. -/
def branchPosition (ifTrue ifFalse : Expr) (ty : TypeRef) : Position → Position
  | .value => .value
  | .statement => .statement
  | .returning =>
    if Node.isTernary ifTrue ifFalse ty then .value else Position.ofBody (!ty.isVoid)

theorem visits_conditional_ofForm (settings : Settings) (mode : AnalysisMode)
    (test ifTrue ifFalse : Expr) (ty : TypeRef) (position : Position) :
    let visits := visitsAll
      (Moves.ofForm settings mode node (.conditional test ifTrue ifFalse ty) position)
    let q := branchPosition ifTrue ifFalse ty position
    (test, .value) ∈ visits ∧ (ifTrue, q) ∈ visits ∧
      (ifFalse.isEmpty = false → (ifFalse, q) ∈ visits) := by
  have hbranches (returns : Bool) :
      let visits := visitsAll (Moves.branches test ifTrue ifFalse returns)
      (test, .value) ∈ visits ∧ (ifTrue, Position.ofBody returns) ∈ visits ∧
        (ifFalse.isEmpty = false → (ifFalse, Position.ofBody returns) ∈ visits) := by
    refine ⟨by simp [Moves.branches, Move.visits], by simp [Moves.branches, Move.visits], fun h => ?_⟩
    simp [Moves.branches, Move.visits, h]
  have hvalues :
      let visits := visitsAll (Moves.values [test, ifTrue, ifFalse])
      (test, .value) ∈ visits ∧ (ifTrue, .value) ∈ visits ∧
        (ifFalse.isEmpty = false → (ifFalse, .value) ∈ visits) := by
    simp
  cases position with
  | value => exact hvalues
  | statement => exact hbranches false
  | returning =>
    dsimp only [branchPosition, Moves.ofForm, Moves.returning]
    split
    · exact hvalues
    · exact hbranches _

/-- A node that is asked for as a statement. -/
theorem covers_asStatement (position : Position) :
    Covers strict (form.Leads node) (visitsAll (Moves.ofForm env.settings mode node form position))
      (Arrangement.asStatement env node form) := by
  have hvalue (hblock : ∀ locals es ty, form ≠ .block locals es ty) :
      Covers strict (form.Leads node) (visitsAll (Moves.value env.settings mode node form))
        (Arrangement.asValue env node form) :=
    covers_asValue strict env mode node form fun locals es ty h => absurd h (hblock locals es ty)
  cases form with
  | block locals es ty =>
    obtain ⟨last, hvisits, -, -⟩ := visits_block_ofForm node env.settings mode locals es ty position
    rw [hvisits]
    exact covers_statements env false fun e _ afterJump => trivial
  | conditional test ifTrue ifFalse ty =>
    obtain ⟨htest, htrue, hfalse⟩ :=
      visits_conditional_ofForm node env.settings mode test ifTrue ifFalse ty position
    exact covers_ifStatement htest htrue trivial hfalse trivial fun h => fits_chained h nofun
  | binary op left right ty m =>
    cases position with
    | value => exact hvalue nofun
    | returning => exact hvalue nofun
    | statement =>
      have hvalue := hvalue nofun
      unfold Moves.ofForm Moves.statement
      unfold Arrangement.asStatement Arrangement.asValue
      unfold Arrangement.asValue at hvalue
      dsimp only at hvalue ⊢
      split
      next h => exact covers_assignment env.settings ⟨rfl, op, left, right, ty, m, rfl, h⟩ op left right true
      next h => simpa [h] using hvalue
  | switch subject cases defaultBody ty =>
    cases position with
    | value => exact hvalue nofun
    | statement => exact hvalue nofun
    | returning => exact covers_switch _ _ _ _ fun _ => trivial
  | «try» tried handlers cleanup fault ty =>
    cases position with
    | value => exact hvalue nofun
    | statement => exact hvalue nofun
    | returning => exact covers_attempt _ _ _ _ fun _ => trivial
  | _ => cases position <;> exact hvalue nofun

/-- A node that was visited as a statement and is asked for as a value. -/
theorem covers_asValue_of_statement (hstrict : ¬strict)
    (hvalue : (Node.mk node form : Expr).rendersAsStatements = false) :
    Covers strict (form.Leads node) (visitsAll (Moves.statement env.settings mode node form))
      (Arrangement.asValue env node form) := by
  have hstatement := covers_asStatement strict env mode node form .statement
  rw [Node.rendersAsStatements_mk] at hvalue
  cases form with
  | block locals es ty =>
    obtain ⟨rfl, only, rfl, hvalue⟩ : locals = [] ∧ ∃ only : Expr, es = [only] ∧
        only.rendersAsStatements = false := by
      simp only [Form.map, Form.isStatement] at hvalue
      split at hvalue
      next only' honly =>
        obtain ⟨only, rfl, rfl⟩ := List.map_eq_singleton_iff.mp honly
        split at hvalue
        next hlocals => exact ⟨List.isEmpty_iff.mp hlocals, only, rfl, hvalue⟩
        · cases hvalue
      · cases hvalue
    exact .child (.inr ⟨.statement, List.mem_cons_self .., .inr ⟨hstrict, rfl, hvalue⟩⟩)
  | conditional test ifTrue ifFalse ty =>
    obtain ⟨htest, htrue, hfalse⟩ :=
      visits_conditional_ofForm node env.settings mode test ifTrue ifFalse ty .statement
    have hternary : Node.isTernary ifTrue ifFalse ty = true := by
      simpa [Form.map, Form.isStatement, Node.isTernary, and_assoc] using hvalue
    unfold Arrangement.asValue
    dsimp only
    rw [if_pos hternary]
    exact covers_ternary hstrict hternary htest htrue hfalse
  | _ => exact hstatement

/-- A node that is asked for the value of a body. -/
theorem covers_asReturning
    (hchains : strict → (Node.mk node form : Expr).chainsFit = true) (position : Position)
    (hposition : position = .returning ∨ ¬strict ∧ position = .statement) :
    Covers strict (form.Leads node) (visitsAll (Moves.ofForm env.settings mode node form position))
      (Arrangement.asReturning env node form) := by
  have hstatement := covers_asStatement strict env mode node form position
  cases form with
  | block locals es ty =>
    obtain ⟨last, hvisits, hdiscard, hreturn⟩ :=
      visits_block_ofForm node env.settings mode locals es ty position
    rw [hvisits]
    refine covers_statements env false fun e _ afterJump => fits_lastMode ?_ ?_ e afterJump
    · exact hposition.imp hreturn (And.imp id hdiscard)
    · unfold BlockRole.lastPosition
      dsimp only
      split <;> decide
  | conditional test ifTrue ifFalse ty =>
    obtain ⟨htest, htrue, hfalse⟩ :=
      visits_conditional_ofForm node env.settings mode test ifTrue ifFalse ty position
    unfold Arrangement.asReturning Arrangement.asValue
    dsimp only
    split
    next hternary =>
      rcases hposition with rfl | ⟨hstrict, rfl⟩
      · simp only [branchPosition, hternary, if_true] at htrue hfalse
        refine .values fun e he => ?_
        simp only [List.mem_cons, List.not_mem_nil, or_false] at he
        rcases he with rfl | rfl | rfl
        · exact .inr htest
        · exact .inr htrue
        · cases hempty : e.isEmpty with
          | true => exact .inl (Node.isLeaf_of_isEmpty hempty)
          | false => exact .inr (hfalse hempty)
      · exact covers_ternary hstrict hternary htest htrue hfalse
    next hternary =>
      rcases hposition with rfl | ⟨hstrict, rfl⟩
      · simp only [branchPosition, hternary] at htrue hfalse
        refine covers_ifStatement htest htrue fits_body hfalse fits_body fun h =>
          fits_chained h fun hreturns => .inl ⟨by rw [hreturns]; rfl, ?_⟩
        by_cases hstrict : strict
        · left
          have hfit := hchains hstrict
          rw [Node.chainsFit_mk, Bool.and_eq_true] at hfit
          simpa [show ty.isVoid = false by simpa using hreturns] using hfit.1
        · exact .inr hstrict
      · exact covers_ifStatement htest htrue (fits_body_of_statement hstrict) hfalse
          (fits_body_of_statement hstrict) fun h => fits_chained h fun _ => .inr ⟨hstrict, rfl⟩
  | switch subject cases defaultBody ty =>
    rcases hposition with rfl | ⟨hstrict, rfl⟩
    · exact covers_switch _ _ _ _ fun _ => fits_body
    · exact covers_switch _ _ _ _ fun _ => fits_body_of_statement hstrict
  | «try» tried handlers cleanup fault ty =>
    rcases hposition with rfl | ⟨hstrict, rfl⟩
    · exact covers_attempt _ _ _ _ fun _ => fits_body
    · exact covers_attempt _ _ _ _ fun _ => fits_body_of_statement hstrict
  | label target defaultValue =>
    refine .append .landing ?_
    cases position <;> exact .values_of_visits _
  | _ => exact hstatement

/-- **Whatever is asked of a node, its children were visited in positions that fit.** -/
theorem covers_ofForm (hchains : strict → (Node.mk node form : Expr).chainsFit = true)
    {position : Position} (hserved : position = .value → form.IsServed env mode node) {request : Mode}
    (hfits : Fits strict position (.mk node form) request) :
    Covers strict (form.Leads node) (visitsAll (Moves.ofForm env.settings mode node form position))
      (Arrangement.ofForm env node form request) := by
  have hstatement := covers_asStatement strict env mode node form position
  have hreturning := covers_asReturning strict env mode node form
    hchains position
  cases request with
  | inPosition p =>
    cases p with
    | value =>
      rcases hfits with rfl | ⟨hstrict, rfl, hvalue⟩
      · exact covers_asValue strict env mode node form (hserved rfl)
      · exact covers_asValue_of_statement strict env mode node form hstrict hvalue
    | statement => exact hstatement
    | returning => exact hreturning hfits
  | body returns =>
    cases returns with
    | true => exact hreturning hfits
    | false => exact hstatement
  | chained returns =>
    obtain ⟨test, ifTrue, ifFalse, ty, hform, hreturns⟩ := hfits
    obtain rfl : form = .conditional test ifTrue ifFalse ty := hform
    obtain ⟨htest, htrue, hfalse⟩ :=
      visits_conditional_ofForm node env.settings mode test ifTrue ifFalse ty position
    cases returns with
    | false => exact hstatement
    | true =>
      obtain ⟨hternary, hposition⟩ := hreturns rfl
      have hbranch : position = .returning ∧ ty.isVoid = false ∨
          ¬strict ∧ branchPosition ifTrue ifFalse ty position = .statement := by
        rcases hposition with h | ⟨hstrict, hne⟩
        · exact .inl h
        · cases position with
          | value => exact absurd rfl hne
          | statement => exact .inr ⟨hstrict, rfl⟩
          | returning =>
            cases hvoid : ty.isVoid with
            | false => exact .inl ⟨rfl, rfl⟩
            | true =>
              refine .inr ⟨hstrict, ?_⟩
              simp [branchPosition, hternary, hvoid, Position.ofBody]
      rcases hbranch with ⟨rfl, hvoid⟩ | ⟨hstrict, hbranch⟩
      · have hsame : Arrangement.ofForm env node (.conditional test ifTrue ifFalse ty) (.chained true) =
            Arrangement.asReturning env node (.conditional test ifTrue ifFalse ty) := by
          simp [Arrangement.ofForm, Arrangement.asReturning, hternary, hvoid]
        rw [hsame]
        exact hreturning (.inl rfl)
      · rw [hbranch] at htrue hfalse
        exact covers_ifStatement htest htrue (fits_body_of_statement hstrict) hfalse
          (fits_body_of_statement hstrict) fun h => fits_chained h fun _ => .inr ⟨hstrict, rfl⟩
  | landing returns =>
    cases form with
    | label target defaultValue =>
      refine .append .landing ?_
      split
      · cases position <;> exact .values_of_visits _
      · exact .nil
    | _ => exact hreturning hfits
  | elements =>
    cases form with
    | newArray elementType expressions bounds =>
      have hvalue := covers_asValue strict env mode node
        (.newArray elementType expressions bounds) fun _ _ _ h => by cases h
      cases position <;> exact hvalue
    | _ => exact .nil

end Form

/-! ### All that is asked of a tree -/

namespace Env

variable (env : Env)

/-- What is made of the one tree in some way asks for the other in some way. -/
inductive Asks : Expr → Mode → Expr → Mode → Prop where
  | here (e : Expr) (request : Mode) : Asks e request e request
  | there {e c x : Expr} {request request' asked : Mode} :
    .child request' c ∈ (Arrangement.ofForm env e.label e.form request).flatMap Step.pieces →
      Asks c request' x asked → Asks e request x asked

/-- Nothing is asked of a leaf but itself. -/
theorem Asks.leaf {env : Env} {e x : Expr} {request asked : Mode} (h : env.Asks e request x asked)
    (hleaf : e.isLeaf = true) : x.isLeaf = true := by
  cases h with
  | here => exact hleaf
  | there hpiece =>
    obtain ⟨node, form⟩ := e
    have hmem := Arrangement.children_ofForm env node form request
      (Arrangement.mem_children_of_piece hpiece)
    rw [Node.children_of_isLeaf hleaf] at hmem
    cases hmem

/-- The blocks that become methods in the visit of a tree are written as calls. -/
def Serves (mode : AnalysisMode) (e : Expr) (position : Position) : Prop :=
  ∀ x, Visit.Meets env.settings mode e position x .value → x.form.IsServed env mode x.label

variable {env} {strict : Prop} {mode : AnalysisMode} {e x : Expr} {request asked : Mode}

/-- **What rendering asks for, the visit has met in a position that fits.** -/
theorem meets_of_asks {position : Position} (h : env.Asks e request x asked)
    (hserves : env.Serves mode e position) (hchains : strict → e.chainsFit = true)
    (hfits : Fits strict position e request) :
    x.isLeaf = true ∨ ∃ q, Visit.Meets env.settings mode e position x q ∧ Fits strict q x asked := by
  induction h generalizing position with
  | here e request => exact .inr ⟨position, .here .., hfits⟩
  | @there e c x request request' asked hpiece hbelow ih =>
    obtain ⟨node, form⟩ := e
    have hcovers : Covers strict (form.Leads node) (Moves.visits env.settings mode (.mk node form) position)
        (Arrangement.ofForm env node form request) := by
      refine covers_ofForm strict env mode node form hchains (fun hposition => ?_) hfits
      exact hserves (.mk node form) (hposition ▸ .here ..)
    rcases hcovers _ hpiece with hleaf | ⟨q, hvisit, hfits'⟩
    · exact .inl (hbelow.leaf hleaf)
    · have hmem := Moves.mem_children_of_visits env.settings mode hvisit
      obtain hleaf | ⟨q', hmeets, hfits''⟩ := ih (fun x hx => hserves x (.there hvisit hx))
        (fun hstrict => Node.chainsFit_of_mem (hchains hstrict) hmem) hfits'
      · exact .inl hleaf
      · exact .inr ⟨q', .there hvisit hmeets, hfits''⟩

/-- What is asked for in an expression on its own has been met. -/
theorem meets_of_asks_root {settings : Settings} (h : (Env.ofExpr settings e).Asks e (rootMode e) x asked) :
    x.isLeaf = true ∨ ∃ q, Visit.Meets settings .expression e
      (if e.rendersAsStatements then .statement else .value) x q ∧ Fits False q x asked := by
  refine meets_of_asks h (fun _ _ _ _ _ _ hmode => nomatch hmode) nofun ?_
  unfold rootMode
  split
  · exact trivial
  · exact .inl rfl

end Env

end TreeScribe
