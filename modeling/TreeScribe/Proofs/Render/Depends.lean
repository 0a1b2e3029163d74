import Mathlib.Data.List.Zip
import TreeScribe.Proofs.Tree.Relabel

/-! What is made of a node depends on certain things that can be made of its children.

Every child may be wanted as a value, as a statement or returned. But only certain children are wanted
as bodies, only a conditional after an `else` is chained, and only a label that ends a block is landed
on. Where the others give something else in these places, the same is made of the node
(`Render.renderer_revised`). -/
namespace TreeScribe

/-- The children that may be wanted as bodies. -/
def Form.bodies {α : Type} : Form α → List α
  | .conditional _ ifTrue ifFalse _ => [ifTrue, ifFalse]
  | .lambda _ _ body _ _ => [body]
  | .loop body _ _ => [body]
  | .switch _ cases defaultBody _ => cases.map (·.body) ++ defaultBody.toList
  | .try body handlers cleanup fault _ =>
    body :: handlers.map (·.body) ++ cleanup.toList ++ fault.toList
  | _ => []

/-- The child that stands after an `else`. -/
def Form.alternative? {α : Type} : Form α → Option α
  | .conditional _ _ ifFalse _ => some ifFalse
  | _ => none

theorem Form.bodies_subset {α : Type} (form : Form α) : form.bodies ⊆ form.children := by
  intro b hb
  cases form with
  | conditional test ifTrue ifFalse ty => exact List.mem_cons_of_mem _ hb
  | lambda name parameters body returnType ty => exact hb
  | loop body breakTarget continueTarget => exact hb
  | switch subject cases defaultBody ty =>
    obtain hcase | hdefault := List.mem_append.mp hb
    · obtain ⟨k, hk, rfl⟩ := List.mem_map.mp hcase
      have hbody : k.body ∈ cases.flatMap fun c => c.tests ++ [c.body] :=
        List.mem_flatMap.mpr ⟨k, hk, List.mem_append_right _ (List.mem_cons_self ..)⟩
      exact List.mem_append_left _ (List.mem_cons_of_mem _ hbody)
    · exact List.mem_append_right _ hdefault
  | «try» tried handlers cleanup fault ty =>
    obtain htried | hfault := List.mem_append.mp hb
    · refine List.mem_append_left _ ?_
      obtain hbody | hcleanup := List.mem_append.mp htried
      · refine List.mem_append_left _ ?_
        obtain rfl | hhandler := List.mem_cons.mp hbody
        · exact List.mem_cons_self ..
        · obtain ⟨k, hk, rfl⟩ := List.mem_map.mp hhandler
          exact List.mem_cons_of_mem _
            (List.mem_flatMap.mpr ⟨k, hk, List.mem_append_right _ (List.mem_cons_self ..)⟩)
      · exact List.mem_append_right _ hcleanup
    · exact List.mem_append_right _ hfault
  | _ => exact absurd hb List.not_mem_nil

theorem Form.alternative?_subset {α : Type} (form : Form α) {c : α} (hc : c ∈ form.alternative?) :
    c ∈ form.children := by
  cases form with
  | conditional test ifTrue ifFalse ty =>
    obtain rfl : ifFalse = c := Option.some.inj hc
    exact List.mem_cons_of_mem _ (List.mem_cons_of_mem _ (List.mem_cons_self ..))
  | _ => exact absurd hc (Option.not_mem_none c)

theorem Form.kind_of_alternative? {α : Type} (form : Form α) {c : α} (hc : c ∈ form.alternative?) :
    form.kind = .conditional := by
  cases form with
  | conditional test ifTrue ifFalse ty => rfl
  | _ => exact absurd hc (Option.not_mem_none c)

theorem Form.bodies_map {α β : Type} (f : α → β) (form : Form α) :
    (form.map f).bodies = form.bodies.map f := by
  cases form with
  | switch subject cases defaultBody ty =>
    have hbodies : cases.map ((·.body) ∘ SwitchCase.map f) = cases.map (f ∘ (·.body)) := rfl
    cases defaultBody <;> simp [map, bodies, hbodies]
  | «try» tried handlers cleanup fault ty =>
    have hbodies : handlers.map ((·.body) ∘ Handler.map f) = handlers.map (f ∘ (·.body)) := rfl
    cases cleanup <;> cases fault <;> simp [map, bodies, hbodies]
  | _ => rfl

theorem Form.alternative?_map {α β : Type} (f : α → β) (form : Form α) :
    (form.map f).alternative? = form.alternative?.map f := by
  cases form <;> rfl

namespace Render

/-- The same child where it is wanted in a position, but with other bodies, chains and landings. -/
def revised (R : Expr → Renderer) (c : Child) : Child :=
  (c.1, { c.2 with body := (R c.1).body, chained := (R c.1).chained, landing := (R c.1).landing })

/-- The bodies, chains and landings that are wanted for a node are the same. -/
structure Keeps (R : Expr → Renderer) (form : Form Child) : Prop where
  body : ∀ c ∈ form.bodies, (R c.1).body = c.2.body
  chained : ∀ c ∈ form.alternative?, ∀ returns, isChained c.1 returns = true →
    (R c.1).chained = c.2.chained
  landing : ∀ c ∈ form.children, isLabel c.1 = true → (R c.1).landing = c.2.landing

variable (env : Env) (node : Nat) (R : Expr → Renderer)

/-! ### Values -/

theorem mapM_revised {α : Type} (f : Child → Rendering α) (h : ∀ c, f (revised R c) = f c)
    (cs : List Child) : (cs.map (revised R)).mapM f = cs.mapM f := by
  rw [List.mapM_map]
  exact congrArg (List.mapM · cs) (funext h)

theorem values_revised (cs : List Child) : values (cs.map (revised R)) = values cs :=
  mapM_revised R value (fun _ => rfl) cs

theorem arguments_revised (cs : List Child) (ps : List ParameterInfo) :
    arguments env (cs.map (revised R)) ps = arguments env cs ps := by
  induction cs generalizing ps with
  | nil => cases ps <;> rfl
  | cons c cs ih =>
    cases ps with
    | nil =>
      simp only [List.map_cons, arguments, ih]
      rfl
    | cons p ps =>
      simp only [List.map_cons, arguments, ih, List.isEmpty_map]
      rfl

theorem argumentList_revised (cs : List Child) (ps : List ParameterInfo) :
    argumentList env (cs.map (revised R)) ps = argumentList env cs ps := by
  rw [argumentList, argumentList, arguments_revised]

theorem indexList_revised (cs : List Child) : indexList (cs.map (revised R)) = indexList cs := by
  rw [indexList, indexList, values_revised]

theorem callAtoms_revised (subject : Atoms) (m : MethodInfo) (cs : List Child) (ps : List ParameterInfo) :
    callAtoms env subject m (cs.map (revised R)) ps = callAtoms env subject m cs ps := by
  have hmethod : methodCall env subject m (cs.map (revised R)) ps = methodCall env subject m cs ps := by
    rw [methodCall, methodCall, argumentList_revised]
  have hlast : (cs.map (revised R)).dropLast = cs.dropLast.map (revised R) := List.map_dropLast.symm
  unfold callAtoms
  rw [hmethod, hlast, indexList_revised, indexList_revised, List.isEmpty_map, List.getLast?_map]
  cases cs.getLast? with
  | none => rfl
  | some last => cases m.isSetter <;> rfl

theorem call_revised (receiver : Option Child) (m : MethodInfo) (cs : List Child) :
    call env (receiver.map (revised R)) m (cs.map (revised R)) = call env receiver m cs := by
  have hconcat : (cs.map (revised R)).mapM (operand · (Level.additive + 1)) =
      cs.mapM (operand · (Level.additive + 1)) := mapM_revised R _ (fun _ => rfl) cs
  unfold call receiverOf
  rw [hconcat]
  cases receiver with
  | some c =>
    simp only [Option.map_some, bind_assoc, pure_bind, callAtoms_revised]
    rfl
  | none =>
    cases hextension : m.isExtension with
    | false => simp only [Option.map_none, pure_bind, callAtoms_revised]
    | true =>
      cases cs with
      | nil => rfl
      | cons c cs =>
        simp only [Option.map_none, List.map_cons, bind_assoc, pure_bind, callAtoms_revised]
        rfl

theorem filled_revised (creation : Creation Child) (items : Rendering (List Item)) :
    filled env (creation.map (revised R)) items = filled env creation items := by
  unfold filled newAtoms
  simp only [Creation.map, List.isEmpty_map, argumentList_revised]

theorem items_revised (items : List (ElementInit Child)) :
    (items.map (·.map (revised R))).mapM (·.mapM value) = items.mapM (·.mapM value) := by
  rw [List.mapM_map]
  refine congrArg (List.mapM · items) (funext fun i => ?_)
  show ElementInit.mapM value (i.map (revised R)) = _
  unfold ElementInit.mapM ElementInit.map
  rw [mapM_revised R value fun _ => rfl]

mutual

theorem binding_revised : (b : Binding Child) →
    Binding.mapM value (Binding.map (revised R) b) = Binding.mapM value b
  | .assignment _ _ => rfl
  | .nested m bindings => by
    simp only [Binding.map, Binding.mapM]
    rw [bindings_revised bindings]
  | .list m items => by
    simp only [Binding.map, Binding.mapM]
    rw [items_revised R items]

theorem bindings_revised : (bs : List (Binding Child)) →
    Binding.mapAllM value (Binding.mapAll (revised R) bs) = Binding.mapAllM value bs
  | [] => rfl
  | b :: bs => by
    simp only [Binding.mapAll, Binding.mapAllM]
    rw [binding_revised b, bindings_revised bs]

end

/-! ### Statements -/

variable {R}

theorem body_revised {c : Child} (h : (R c.1).body = c.2.body) : (revised R c).2.body = c.2.body := h

theorem ifStatement_revised {test ifTrue ifFalse : Child} {ty : TypeRef}
    (h : Keeps R (.conditional test ifTrue ifFalse ty)) (returns : Bool) :
    ifStatement (revised R test) (revised R ifTrue) (revised R ifFalse) ty returns =
      ifStatement test ifTrue ifFalse ty returns := by
  have htaken : (R ifTrue.1).body = ifTrue.2.body := h.body _ (List.mem_cons_self ..)
  have hother : (R ifFalse.1).body = ifFalse.2.body :=
    h.body _ (List.mem_cons_of_mem _ (List.mem_singleton_self _))
  have hchained := h.chained ifFalse rfl returns
  unfold ifStatement
  simp only [revised, htaken, hother]
  cases hchain : isChained ifFalse.1 returns with
  | false => rfl
  | true =>
    simp only [hchained hchain]
    rfl

theorem lambda_revised {name : Option String} {parameters : List Variable} {body : Child}
    {returnType ty : TypeRef} (h : Keeps R (.lambda name parameters body returnType ty)) :
    lambda env node parameters (revised R body) returnType ty =
      lambda env node parameters body returnType ty := by
  have hbody : (R body.1).body = body.2.body := h.body _ (List.mem_singleton_self _)
  unfold lambda
  simp only [revised, hbody]
  rfl

theorem lastStatement_revised {c : Child} (h : isLabel c.1 = true → (R c.1).landing = c.2.landing)
    (position : Position) (afterJump : Bool) :
    lastStatement position afterJump (revised R c) = lastStatement position afterJump c := by
  unfold lastStatement
  split
  next hlast =>
    have hlabel : isLabel c.1 = true := (Bool.and_eq_true_iff.mp hlast).2
    rw [if_pos (Bool.and_eq_true_iff.mpr ⟨(Bool.and_eq_true_iff.mp hlast).1, hlabel⟩)]
    exact congrFun (h hlabel) _
  next hlast => exact (if_neg hlast).symm

theorem statementsFrom_revised {cs : List Child}
    (h : ∀ c ∈ cs, isLabel c.1 = true → (R c.1).landing = c.2.landing) (last : Position)
    (afterJump : Bool) :
    statementsFrom last afterJump (cs.map (revised R)) = statementsFrom last afterJump cs := by
  induction cs generalizing afterJump with
  | nil => rfl
  | cons c cs ih =>
    have hrest := ih fun c' hc => h c' (List.mem_cons_of_mem _ hc)
    simp only [List.map_cons, statementsFrom, hrest, List.isEmpty_map,
      lastStatement_revised (h c (List.mem_cons_self ..))]
    rfl

theorem blockStatements_revised {cs : List Child}
    (h : ∀ c ∈ cs, isLabel c.1 = true → (R c.1).landing = c.2.landing) (ty : TypeRef) (role : BlockRole) :
    blockStatements env node (cs.map (revised R)) ty role = blockStatements env node cs ty role := by
  simp only [blockStatements, statementsFrom_revised h]

theorem valueBlock_revised {cs : List Child}
    (h : ∀ c ∈ cs, isLabel c.1 = true → (R c.1).landing = c.2.landing) (locals : List Variable)
    (ty : TypeRef) :
    valueBlock env node locals (cs.map (revised R)) ty = valueBlock env node locals cs ty := by
  have hspelled := blockStatements_revised env node h ty .value
  unfold valueBlock
  rw [hspelled]
  match locals, cs with
  | [], [] | [], [_] | [], _ :: _ :: _ | _ :: _, [] | _ :: _, _ :: _ => rfl

theorem switchCases_revised {cases : List (SwitchCase Child)}
    (h : ∀ k ∈ cases, (R k.body.1).body = k.body.2.body) (returns first : Bool) :
    switchCases returns first (cases.map (·.map (revised R))) = switchCases returns first cases := by
  induction cases generalizing first with
  | nil => rfl
  | cons k cases ih =>
    have hrest := ih fun k' hk => h k' (List.mem_cons_of_mem _ hk)
    have hbody := h k (List.mem_cons_self ..)
    rw [List.map_cons, switchCases, switchCases, hrest]
    simp only [SwitchCase.map, values_revised, body_revised hbody]

theorem switch_revised {subject : Child} {cases : List (SwitchCase Child)} {defaultBody : Option Child}
    {ty : TypeRef} (h : Keeps R (.switch subject cases defaultBody ty)) (returns : Bool) :
    switch node (revised R subject) (cases.map (·.map (revised R))) (defaultBody.map (revised R)) ty returns =
      switch node subject cases defaultBody ty returns := by
  have hcases : ∀ k ∈ cases, (R k.body.1).body = k.body.2.body := fun k hk =>
    h.body _ (List.mem_append_left _ (List.mem_map_of_mem hk))
  unfold switch
  simp only [switchCases_revised hcases, List.isEmpty_map]
  cases defaultBody with
  | none => rfl
  | some c =>
    have hbody : (R c.1).body = c.2.body := h.body _ (List.mem_append_right _ (List.mem_singleton_self _))
    simp only [Option.map_some, body_revised hbody]
    rfl

theorem attempt_revised {tried : Child} {handlers : List (Handler Child)} {cleanup fault : Option Child}
    {ty : TypeRef} (h : Keeps R (.try tried handlers cleanup fault ty)) (returns : Bool) :
    attempt env (revised R tried) (handlers.map (·.map (revised R))) (cleanup.map (revised R))
        (fault.map (revised R)) ty returns =
      attempt env tried handlers cleanup fault ty returns := by
  have htried : (R tried.1).body = tried.2.body :=
    h.body _ (List.mem_append_left _ (List.mem_append_left _ (List.mem_cons_self ..)))
  have hhandlers : (handlers.map (·.map (revised R))).mapM (catchHandler env returns) =
      handlers.mapM (catchHandler env returns) := by
    have hbodies : ∀ k ∈ handlers, (R k.body.1).body = k.body.2.body := fun k hk =>
      h.body _ (List.mem_append_left _ (List.mem_append_left _
        (List.mem_cons_of_mem _ (List.mem_map_of_mem hk))))
    clear h
    induction handlers with
    | nil => rfl
    | cons k handlers ih =>
      have hone : catchHandler env returns (k.map (revised R)) = catchHandler env returns k := by
        unfold catchHandler
        simp only [Handler.map, body_revised (hbodies k (List.mem_cons_self ..))]
        cases hfilter : k.filter <;> simp [catchAtoms, hfilter, revised, value]
      rw [List.map_cons, List.mapM_cons, List.mapM_cons, hone,
        ih fun k' hk => hbodies k' (List.mem_cons_of_mem _ hk)]
  have hcleanup : ∀ c ∈ cleanup, (R c.1).body = c.2.body := fun c hc =>
    h.body c (List.mem_append_left _ (List.mem_append_right _ (Option.mem_toList.mpr hc)))
  have hfault : ∀ c ∈ fault, (R c.1).body = c.2.body := fun c hc =>
    h.body c (List.mem_append_right _ (Option.mem_toList.mpr hc))
  unfold attempt
  simp only [body_revised htried, hhandlers]
  cases fault with
  | none =>
    cases cleanup with
    | none => rfl
    | some c =>
      simp only [Option.map_some, body_revised (hcleanup c rfl)]
      rfl
  | some c =>
    simp only [Option.map_some, body_revised (hfault c rfl)]
    cases cleanup with
    | none => rfl
    | some c =>
      simp only [Option.map_some, body_revised (hcleanup c rfl)]

/-! ### Whole nodes -/

theorem builtIn_revised {form : Form Child} (h : Keeps R form) :
    builtIn env node (form.map (revised R)) = builtIn env node form := by
  cases form with
  | unary op operand ty method => cases operand <;> rfl
  | conditional test ifTrue ifFalse ty =>
    simp only [Form.map, builtIn, ifStatement_revised h]
    rfl
  | block locals es ty => exact valueBlock_revised env node h.landing locals ty
  | lambda name parameters body returnType ty => exact lambda_revised env node h
  | call receiver method args => exact call_revised env R receiver method args
  | invoke target args ty =>
    simp only [Form.map, builtIn, invoke, argumentList_revised]
    rfl
  | member receiver info => cases receiver <;> rfl
  | new creation =>
    simp only [Form.map, builtIn, new, Creation.map, argumentList_revised, List.zip_map_right,
      List.mapM_map]
    rfl
  | newArray elementType es bounds =>
    have htypes : (es.map (revised R)).map (·.1.ty) = es.map (·.1.ty) := by
      rw [List.map_map]
      rfl
    simp only [Form.map, builtIn, newArray, Form.arrayRank, values_revised, htypes, List.length_map,
      List.isEmpty_map]
  | memberInit creation bindings =>
    simp only [Form.map, builtIn, memberInit, filled_revised, bindings_revised]
    rfl
  | listInit creation items =>
    simp only [Form.map, builtIn, listInit, filled_revised, items_revised]
    rfl
  | loop body breakTarget continueTarget =>
    have hbody : (R body.1).body = body.2.body := h.body _ (List.mem_singleton_self _)
    simp only [Form.map, builtIn, loop, body_revised hbody]
  | jump kind target result ty => cases result <;> rfl
  | label target defaultValue => cases defaultValue <;> rfl
  | switch subject cases defaultBody ty => exact switch_revised node h false
  | «try» tried handlers cleanup fault ty => exact attempt_revised env h false
  | index object indexer args ty =>
    simp only [Form.map, builtIn, index, indexList_revised]
    rfl
  | extension name ty display operands =>
    simp only [Form.map, builtIn, extension, values_revised, List.isEmpty_map]
  | _ => rfl

theorem custom?_revised (form : Form Child) :
    custom? env node (form.map (revised R)) = custom? env node form := by
  have hform : (form.map (revised R)).map (·.1) = form.map (·.1) := Form.map_map _ _ form
  unfold custom?
  simp only [hform, Form.children_map, Form.kind_map, Form.ty_map, List.map_map]
  rfl

theorem notedValue_map {α β : Type} (f : α → β) (form : Form α) (d : Doc) :
    notedValue env node (form.map f) d = notedValue env node form d := by
  cases form <;> rfl

theorem asValue_revised {form : Form Child} (h : Keeps R form) :
    asValue env node (form.map (revised R)) = asValue env node form := by
  rw [asValue, asValue, custom?_revised, builtIn_revised env node h]

theorem asStatement_revised {form : Form Child} (h : Keeps R form) :
    asStatement env node (form.map (revised R)) = asStatement env node form := by
  have hvalue := asValue_revised env node h
  unfold asStatement
  rw [custom?_revised, hvalue]
  cases form with
  | conditional test ifTrue ifFalse ty =>
    simp only [Form.map, ifStatement_revised h]
  | block locals es ty =>
    have hlanding : ∀ c ∈ es, isLabel c.1 = true → (R c.1).landing = c.2.landing := h.landing
    simp only [Form.map, nestedBlock, blockStatements_revised env node hlanding]
  | _ => rfl

theorem asReturning_revised {form : Form Child} (h : Keeps R form) :
    asReturning env node (form.map (revised R)) = asReturning env node form := by
  have hvalue := asValue_revised env node h
  unfold asReturning
  simp only [custom?_revised, isNotReturned_map, hvalue]
  cases form with
  | conditional test ifTrue ifFalse ty =>
    simp only [Form.map, ifStatement_revised h]
    rfl
  | block locals es ty =>
    have hlanding : ∀ c ∈ es, isLabel c.1 = true → (R c.1).landing = c.2.landing := h.landing
    simp only [Form.map, nestedBlock, blockStatements_revised env node hlanding]
  | switch subject cases defaultBody ty => simp only [Form.map, switch_revised node h]
  | «try» tried handlers cleanup fault ty => simp only [Form.map, attempt_revised env h]
  | label target defaultValue => cases defaultValue <;> rfl
  | _ => rfl

theorem asBody_revised {form : Form Child} (h : Keeps R form) (returns : Bool) :
    asBody env node (form.map (revised R)) returns = asBody env node form returns := by
  have hstatement := asStatement_revised env node h
  have hreturning := asReturning_revised env node h
  unfold asBody
  rw [hstatement, hreturning]
  cases form with
  | block locals es ty =>
    have hlanding : ∀ c ∈ es, isLabel c.1 = true → (R c.1).landing = c.2.landing := h.landing
    simp only [Form.map, blockStatements_revised env node hlanding]
  | _ => rfl

theorem asChained_revised {form : Form Child} (h : Keeps R form) (returns : Bool) :
    asChained env node (form.map (revised R)) returns = asChained env node form returns := by
  have hstatement := asStatement_revised env node h
  cases form with
  | conditional test ifTrue ifFalse ty => exact ifStatement_revised h returns
  | _ => exact hstatement

theorem asLanding_revised {form : Form Child} (h : Keeps R form) (returns : Bool) :
    asLanding env node (form.map (revised R)) returns = asLanding env node form returns := by
  have hreturning := asReturning_revised env node h
  cases form with
  | label target defaultValue => cases defaultValue <;> cases returns <;> rfl
  | _ => exact hreturning

theorem asElements_revised (form : Form Child) : asElements (form.map (revised R)) = asElements form := by
  cases form with
  | newArray elementType es bounds => exact values_revised R es
  | _ => rfl

/-- What is made of a node does not depend on the bodies, chains and landings that are not wanted
for it. -/
theorem renderer_revised {form : Form Child} (h : Keeps R form) :
    renderer env node (form.map (revised R)) = renderer env node form := by
  have hnoted : notedValue env node (form.map (revised R)) = notedValue env node form :=
    funext (notedValue_map env node (revised R) form)
  have hbody : asBody env node (form.map (revised R)) = asBody env node form :=
    funext (asBody_revised env node h)
  unfold renderer
  simp only [asValue_revised env node h, asStatement_revised env node h, asReturning_revised env node h,
    hbody, asChained_revised env node h, asLanding_revised env node h, asElements_revised, hnoted]

/-- Children of which the same is made in every position differ only where they can be revised. -/
theorem map_revised {R S : Expr → Renderer} {form : Form Expr}
    (hplain : ∀ c ∈ form.children,
      (S c).inPosition = (R c).inPosition ∧ (S c).elements = (R c).elements) :
    (form.map fun c => (c, S c)).map (revised R) = form.map fun c => (c, R c) := by
  rw [Form.map_map]
  refine Form.map_congr fun c hc => Prod.ext rfl ?_
  obtain ⟨hposition, helements⟩ := hplain c hc
  show Renderer.mk .. = R c
  rw [hposition, helements]

/-- The same is made of a node where the same is made of its children in every position, and of those
that it wants as bodies, chains and landings there too. -/
theorem renderer_congr {R S : Expr → Renderer} {form : Form Expr}
    (hplain : ∀ c ∈ form.children,
      (S c).inPosition = (R c).inPosition ∧ (S c).elements = (R c).elements)
    (hbody : ∀ c ∈ form.bodies, (S c).body = (R c).body)
    (hchained : ∀ c ∈ form.alternative?, ∀ returns, isChained c returns = true →
      (S c).chained = (R c).chained)
    (hlanding : ∀ c ∈ form.children, isLabel c = true → (S c).landing = (R c).landing) :
    renderer env node (form.map fun c => (c, S c)) = renderer env node (form.map fun c => (c, R c)) := by
  have hkeeps : Keeps R (form.map fun c => (c, S c)) := by
    refine ⟨fun c hc => ?_, fun c hc => ?_, fun c hc => ?_⟩
    · rw [Form.bodies_map] at hc
      obtain ⟨x, hx, rfl⟩ := List.mem_map.mp hc
      exact (hbody x hx).symm
    · rw [Form.alternative?_map] at hc
      obtain ⟨x, hx, rfl⟩ := Option.map_eq_some_iff.mp hc
      exact fun returns hchain => (hchained x hx returns hchain).symm
    · rw [Form.children_map] at hc
      obtain ⟨x, hx, rfl⟩ := List.mem_map.mp hc
      exact fun hlabel => (hlanding x hx hlabel).symm
  rw [← map_revised hplain]
  exact (renderer_revised env node hkeeps).symm

end Render
end TreeScribe
