import TreeScribe.Proofs.Render.Signs.Start

/-! How statements, blocks and extensions begin. -/
namespace TreeScribe

open Render Atoms

namespace Render

variable (env : Env)

theorem starts_spelledBlock (declared : List Slot) (node : Nat) (expressions : List Child) (ty : TypeRef) :
    StartsAs declared
      (match env.calls.lookup node with
        | some call => return extractedCall call ty
        | none => do return (← blockStatements env node expressions ty .value).braced)
      (match env.calls.lookup node with
        | some call => (Start.ofText call.name).or .other
        | none => .other) := by
  cases env.calls.lookup node with
  | none => exact .after fun _ => .pure rfl
  | some call =>
    refine .pure ?_
    show (methodName call.name ++ parens _).start = _
    rw [start_append, start_methodName]
    rfl

theorem starts_valueBlock {declared : List Slot} {f : Expr → Start} (node : Nat)
    (locals : List Variable) {expressions : List Child}
    (h : ∀ c ∈ expressions, StartsAs declared (value c) (f c.1)) (ty : TypeRef) :
    StartsAs declared (valueBlock env node locals expressions ty)
      (Start.block env node locals (expressions.map fun c => (c.1, f c.1))) := by
  have hspelled := starts_spelledBlock env declared node expressions ty
  rcases locals with _ | ⟨v, locals⟩ <;> rcases expressions with _ | ⟨only, _ | ⟨second, rest⟩⟩
  case nil.cons.nil => exact h only (List.mem_singleton_self _)
  all_goals exact hspelled

theorem starts_label (target : Target) (defaultValue : Option Child) :
    AlwaysStartsAs (label env target defaultValue false)
      (if env.analysis.isJumpTarget target then (Start.ofText target.writtenName).or .other
        else .nothing) := by
  have hfilter : defaultValue.filter (fun _ => false) = none := by
    cases defaultValue <;> rfl
  unfold label
  dsimp only
  rw [hfilter]
  by_cases hshown : env.analysis.isJumpTarget target = true
  · rw [if_pos hshown, if_pos hshown]
    refine .pure ?_
    rw [Atoms.when, if_pos hshown, labelLine, List.append_assoc, start_append, start_note,
      Start.nothing_or, start_append, start_text]
    rfl
  · rw [if_neg hshown, if_neg hshown]
    exact .pure rfl

theorem starts_jump (kind : JumpKind) (target : Target) (result : Option Child) (ty : TypeRef) :
    AlwaysStartsAs (jump kind target result ty) .other := by
  unfold jump
  cases kind with
  | goto | «break» | «continue» => exact .pure rfl
  | «return» =>
    cases result with
    | none => exact .pure rfl
    | some c => exact .after fun _ => .pure rfl

theorem starts_ifStatement (test ifTrue ifFalse : Child) (ty : TypeRef) (returns : Bool) :
    AlwaysStartsAs (ifStatement test ifTrue ifFalse ty returns) .other := by
  refine .after fun taken => .after fun condition => ?_
  dsimp only
  split
  · exact .pure rfl
  · split <;> exact .after fun _ => .pure rfl

theorem starts_lambda (node : Nat) (parameters : List Variable) (body : Child)
    (returnType ty : TypeRef) :
    AlwaysStartsAs (lambda env node parameters body returnType ty)
      ((lambdaParameters env node parameters).start.or .other) := by
  unfold lambda
  dsimp only
  split
  · refine .after fun _ => .pure ?_
    dsimp only
    rw [List.append_assoc, List.append_assoc]
    exact start_followed _ rfl
  · refine .after fun _ => .pure ?_
    dsimp only
    rw [List.append_assoc]
    exact start_followed _ rfl

theorem starts_switch (node : Nat) (subject : Child) (cases : List (SwitchCase Child))
    (defaultBody : Option Child) (ty : TypeRef) (returns : Bool) :
    AlwaysStartsAs (switch node subject cases defaultBody ty returns) .other := by
  refine .after fun _ => .after fun _ => ?_
  cases defaultBody with
  | none => exact .pure rfl
  | some c => exact .after fun _ => .pure rfl

theorem starts_attempt (tried : Child) (handlers : List (Handler Child))
    (cleanup fault : Option Child) (ty : TypeRef) (returns : Bool) :
    AlwaysStartsAs (attempt env tried handlers cleanup fault ty returns) .other := by
  refine .after fun _ => .after fun _ => ?_
  cases fault with
  | none =>
    cases cleanup with
    | none => exact .pure rfl
    | some c => exact .after fun _ => .pure rfl
  | some f =>
    cases cleanup with
    | none => exact .after fun _ => .pure rfl
    | some c => exact .after fun _ => .after fun _ => .pure rfl

theorem starts_extension (name : String) (ty : TypeRef) (display : Option String)
    (operands : List Child) :
    AlwaysStartsAs (extension name ty display operands)
      (Start.extension name display operands.isEmpty) := by
  unfold extension Start.extension
  cases display with
  | some display => exact .pure (start_text display)
  | none =>
    dsimp only
    split
    · exact .pure (start_text name)
    · refine .after fun _ => .pure ?_
      rw [start_append, start_text]
      rfl

end Render

end TreeScribe
