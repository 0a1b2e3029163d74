import TreeScribe.Proofs.Analysis.Records
import TreeScribe.Proofs.Render.Names

/-! The types that a visit notes, as against those that are spelled out.

Where a node spells out a type, its visit notes that type, or one that needs the same namespaces
(`Moves.notes_ofForm`). The exceptions are few (`Form.unnoted`): the value of a captured variable, a
constant that is written by the name of its type, and the type of a static call of an operator. -/
namespace TreeScribe

open Move Moves

/-! ### Namespaces that types need -/

namespace TypeRef

/-- The type of all objects has a keyword for a name. -/
theorem requiredNamespaces_of_isObject {t : TypeRef} (h : t.isObject = true) (helement : t.element = none) :
    t.requiredNamespaces = [] := by
  obtain ⟨kind, space, name, declaring, args, element, rank, anonymous, closure⟩ := t
  obtain rfl : element = none := helement
  simp only [isObject, isSystem, Bool.and_eq_true, Option.isNone_iff_eq_none, bne_iff_ne, ne_eq,
    beq_iff_eq] at h
  obtain ⟨⟨⟨rfl, hkind⟩, rfl⟩, rfl⟩ := h
  simp [requiredNamespaces, isNullable, isSystem, keyword?, hkind, List.lookup_cons]

/-- An array needs what its elements need. -/
theorem requiredNamespaces_splitJagged (t : TypeRef) :
    (Render.splitJagged t).1.requiredNamespaces = t.requiredNamespaces := by
  fun_induction Render.splitJagged t with
  | case1 => simp_all [requiredNamespaces]
  | case2 => rfl

end TypeRef

/-! ### Moves that note a type -/

namespace Move

/-- Every namespace that the type needs is one that some noted type needs. -/
def Notes (ms : List Move) (t : TypeRef) : Prop :=
  ∀ space ∈ t.requiredNamespaces, ∃ t', .note t' ∈ stepsAll ms ∧ space ∈ t'.requiredNamespaces

namespace Notes

variable {ms : List Move} {t : TypeRef}

theorem of_steps (h : .note t ∈ stepsAll ms) : Notes ms t := fun _ hspace => ⟨t, h, hspace⟩

theorem of_mem (h : .note t ∈ ms) : Notes ms t :=
  of_steps (stepsAll_subset h (List.mem_singleton_self _))

theorem congr (h : Notes ms t) {t' : TypeRef} (hsame : t'.requiredNamespaces = t.requiredNamespaces) :
    Notes ms t' := by
  intro space hspace
  exact h space (hsame ▸ hspace)

theorem after (h : Notes ms t) (first : List Move) : Notes (first ++ ms) t := by
  intro space hspace
  obtain ⟨t', hnote, hneeds⟩ := h space hspace
  exact ⟨t', stepsAll_append first ms ▸ List.mem_append_right _ hnote, hneeds⟩

theorem before (h : Notes ms t) (rest : List Move) : Notes (ms ++ rest) t := by
  intro space hspace
  obtain ⟨t', hnote, hneeds⟩ := h space hspace
  exact ⟨t', stepsAll_append ms rest ▸ List.mem_append_left _ hnote, hneeds⟩

theorem scope (h : Notes ms t) {owner : Owner} {declared : List Variable} {moves : List Move}
    (hmem : .scope owner declared ms ∈ moves) : Notes moves t := by
  intro space hspace
  obtain ⟨t', hnote, hneeds⟩ := h space hspace
  exact ⟨t', stepsAll_subset hmem hnote, hneeds⟩

theorem noteIf {condition : Bool} (h : condition = true) : Notes (noteIf condition t) t := by
  rw [h]
  exact of_mem (List.mem_singleton_self _)

end Notes

end Move

/-! ### Types that are not noted -/

/-- The types that a node spells out without noting them. -/
def Form.unnoted (settings : Settings) : Form Expr → List TypeRef
  | .constant ⟨.float x, ty⟩ => Named.literal (.float x) ty
  | .constant ⟨.closure _, ty⟩ => [ty]
  | .call none m args => if m.isOperator then Named.receiver none m args else []
  | .member (some e) info => Named.member settings (some e) info
  -- the type of all objects needs no namespace, unless it is given elements like an array
  | .try _ handlers _ _ _ => (handlers.map (·.test)).filter fun t => t.isObject && t.element.isSome
  | _ => []

/-- A call or a member without an instance is static. -/
def Form.isStatic : Form Expr → Bool
  | .call none m _ => m.isStatic
  | .member none info => info.isStatic
  | _ => true

namespace Moves

variable {settings : Settings} {t : TypeRef}

theorem notes_method {method : Option MethodInfo} {m : MethodInfo} (h : method.filter (!·.isOperator) = some m) :
    Notes (Moves.method method) m.declaring := by
  obtain ⟨rfl, hordinary⟩ := Option.filter_eq_some_iff.mp h
  exact .noteIf hordinary

theorem notes_binary {op : BinaryOp} {method : Option MethodInfo} (h : t ∈ Named.binary op method) :
    Notes (noteIf (op == .power) TypeRef.math ++ Moves.method method) t := by
  unfold Named.binary at h
  split at h
  next m hm =>
    obtain rfl := List.mem_singleton.mp h
    exact (notes_method hm).after _
  · split at h
    next hpower =>
      obtain rfl := List.mem_singleton.mp h
      exact (Notes.noteIf hpower).before _
    · cases h

theorem notes_assignment {op : BinaryOp} (h : t ∈ (if op == .powerAssign then [TypeRef.math] else []))
    (node : Nat) (left right : Expr) (isStatement : Bool) :
    Notes (assignment settings node op left right isStatement) t := by
  split at h
  next hpower =>
    obtain rfl := List.mem_singleton.mp h
    exact ((Notes.noteIf hpower).after [_]).before _
  · cases h

theorem notes_unary {op : UnaryOp} {operand : Option Expr} {ty : TypeRef} {method : Option MethodInfo}
    (h : t ∈ Named.unary op operand ty method) : Notes (unary op operand ty method) t := by
  unfold Named.unary at h
  split at h
  · cases h
  next m hm =>
    obtain rfl := List.mem_singleton.mp h
    exact ((notes_method hm).after _).before _
  next e hnone =>
    split at h
    next hwritten =>
      obtain rfl := List.mem_singleton.mp h
      refine Notes.before (Notes.before ?_ _) _
      rcases Bool.or_eq_true_iff.mp hwritten with hconversion | has
      · exact (Notes.noteIf hconversion).before _
      · exact (Notes.noteIf has).after _
    · cases h

theorem notes_constant {c : Constant} (h : t ∈ Named.literal c.value c.ty) :
    t ∈ (Form.constant c).unnoted settings ∨ Notes (constant settings c) t := by
  obtain ⟨value, ty⟩ := c
  cases value with
  | float x => exact .inl h
  | closure fields => exact .inl h
  | type t' | enumMember name =>
    obtain rfl := List.mem_singleton.mp h
    exact .inr (.of_mem (List.mem_singleton_self _))
  | _ => cases h

theorem notes_call {receiver : Option Expr} {m : MethodInfo} {args : List Expr}
    (hstatic : (Form.call receiver m args).isStatic = true) (h : t ∈ Named.call settings receiver m args) :
    t ∈ (Form.call receiver m args).unnoted settings ∨ Notes (call settings receiver m args) t := by
  unfold Named.call at h
  unfold Moves.call
  split at h
  · cases h
  next hconcat =>
    rw [if_neg hconcat]
    rcases List.mem_append.mp h with h | h
    · cases receiver with
      | some e => cases h
      | none =>
        have hdeclaring : t = m.declaring := by
          unfold Named.receiver at h
          split at h
          · cases h
          · cases h
          · exact List.mem_singleton.mp h
        subst hdeclaring
        cases hoperator : m.isOperator with
        | true =>
          left
          show m.declaring ∈ (if m.isOperator then Named.receiver none m args else [])
          rwa [if_pos hoperator]
        | false =>
          right
          have hstatic : m.isStatic = true := hstatic
          refine Notes.before (Notes.before (Notes.before (.noteIf ?_) _) _) _
          rw [hstatic]
          rfl
    · right
      unfold Named.genericArgs at h
      split at h
      next hwrites =>
        rw [if_pos hwrites]
        refine Notes.before (Notes.before (Notes.after (.of_mem ?_) _) _) _
        exact List.mem_map_of_mem h
      · cases h

theorem notes_newArray {elementType : TypeRef} {expressions : List Expr} {bounds : Bool}
    (h : t ∈ Named.newArray settings elementType expressions bounds) :
    Notes (noteIf (bounds || !settings.leavesElementType (expressions.map (·.ty))) elementType) t := by
  unfold Named.newArray at h
  split at h
  next hsized =>
    obtain rfl := List.mem_singleton.mp h
    refine Notes.congr (.noteIf ?_) (TypeRef.requiredNamespaces_splitJagged elementType)
    rcases Bool.or_eq_true_iff.mp hsized with hbounds | hempty
    · rw [hbounds, Bool.true_or]
    · rw [List.isEmpty_iff.mp hempty]
      simp [Settings.leavesElementType]
  · split at h
    · cases h
    next hleft =>
      obtain rfl := List.mem_singleton.mp h
      refine .noteIf ?_
      rw [Bool.eq_false_of_not_eq_true hleft]
      exact Bool.or_true _

theorem notes_lambda {parameters : List Variable} (h : t ∈ Named.lambda settings parameters) (node : Nat)
    (lambdaBody : Expr) (returnType : TypeRef) :
    Notes [lambda settings node parameters lambdaBody returnType] t := by
  unfold Named.lambda at h
  split at h
  next hwrites =>
    obtain ⟨v, hv, rfl⟩ := List.mem_map.mp h
    refine Notes.scope (Notes.before (.of_mem ?_) _) (List.mem_singleton_self _)
    refine List.mem_flatMap.mpr ⟨v, hv, ?_⟩
    rw [hwrites]
    exact List.mem_singleton_self _
  · cases h

/-- Every type that a handler tests for is noted, except for the type of all objects. -/
theorem notes_attempt {tried : Expr} {handlers : List (Handler Expr)} {cleanup fault : Option Expr}
    {ty : TypeRef} (h : t ∈ handlers.map (·.test)) (returns : Bool) :
    t ∈ (Form.try tried handlers cleanup fault ty).unnoted settings ∨
      Notes (attempt tried handlers cleanup fault returns) t := by
  obtain ⟨k, hk, rfl⟩ := List.mem_map.mp h
  cases hobject : k.test.isObject with
  | true =>
    cases helement : k.test.element with
    | some element =>
      left
      refine List.mem_filter.mpr ⟨h, ?_⟩
      rw [hobject, helement]
      rfl
    | none =>
      right
      intro space hspace
      rw [TypeRef.requiredNamespaces_of_isObject hobject helement] at hspace
      cases hspace
  | false =>
    right
    have hhandler : Notes (noteIf (!k.test.isObject) k.test ++ values k.filter.toList ++
        [body k.body returns]) k.test :=
      ((Notes.noteIf (by rw [hobject]; rfl)).before _).before _
    have hmem : handler returns k ∈ handlers.map (handler returns) := List.mem_map_of_mem hk
    exact hhandler.scope (List.mem_append_left _ (List.mem_append_left _ (List.mem_cons_of_mem _ hmem)))

variable (mode : AnalysisMode) (node : Nat) {form : Form Expr} (hstatic : form.isStatic = true)
  (h : t ∈ form.spelled settings)

include hstatic h

theorem notes_value :
    t ∈ form.unnoted settings ∨ Notes (value settings mode node form) t := by
  cases form with
  | constant c => exact notes_constant h
  | binary op left right ty method =>
    right
    unfold Form.spelled at h
    unfold value
    dsimp only at h ⊢
    split at h
    next hassignment =>
      rw [if_pos hassignment]
      exact notes_assignment h node left right false
    next hassignment =>
      rw [if_neg hassignment]
      exact (notes_binary h).before _
  | unary op operand ty method => exact .inr (notes_unary h)
  | lambda name parameters lambdaBody returnType ty =>
    exact .inr (notes_lambda h node lambdaBody returnType)
  | call receiver m args => exact notes_call hstatic h
  | member receiver info =>
    cases receiver with
    | some e => exact .inl h
    | none =>
      obtain rfl := List.mem_singleton.mp h
      exact .inr ((Notes.noteIf hstatic).before _)
  | new creation =>
    right
    refine Notes.before ?_ _
    unfold Form.spelled at h
    dsimp only at h
    split at h
    · cases h
    next hnamed =>
      obtain rfl := List.mem_singleton.mp h
      refine .noteIf ?_
      rw [Bool.eq_false_of_not_eq_true hnamed]
      rfl
  | newArray elementType expressions bounds => exact .inr ((notes_newArray h).before _)
  | memberInit creation bindings | listInit creation items =>
    obtain rfl := List.mem_singleton.mp h
    exact .inr (.of_mem (List.mem_cons_self ..))
  | «try» tried handlers cleanup fault ty => exact notes_attempt h false
  | default ty =>
    right
    unfold Form.spelled at h
    dsimp only at h
    split at h
    · cases h
    next hwritten =>
      obtain rfl := List.mem_singleton.mp h
      refine .noteIf ?_
      rw [Bool.eq_false_of_not_eq_true hwritten]
      rfl
  | typeTest expression tested exact =>
    obtain rfl := List.mem_singleton.mp h
    exact .inr (.of_mem (List.mem_cons_self ..))
  | _ => cases h

/-- **Where a type is spelled out, the visit notes what it needs**, except for a few. -/
theorem notes_ofForm (position : Position) :
    t ∈ form.unnoted settings ∨ Notes (ofForm settings mode node form position) t := by
  have hvalue := notes_value mode node hstatic h
  cases position with
  | value => exact hvalue
  | statement =>
    cases form with
    | block locals es ty => cases h
    | binary op left right ty method =>
      unfold ofForm statement
      dsimp only
      split
      next hassignment =>
        unfold Form.spelled at h
        dsimp only at h
        rw [if_pos hassignment] at h
        exact .inr (notes_assignment h node left right true)
      · exact hvalue
    | conditional test ifTrue ifFalse ty => cases h
    | _ => exact hvalue
  | returning =>
    cases form with
    | block locals es ty => cases h
    | conditional test ifTrue ifFalse ty => cases h
    | switch subject cases defaultBody ty => cases h
    | «try» tried handlers cleanup fault ty => exact notes_attempt h _
    | _ => exact hvalue

end Moves

end TreeScribe
