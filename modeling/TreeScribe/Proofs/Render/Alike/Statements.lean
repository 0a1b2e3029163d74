import TreeScribe.Proofs.Render.Alike.Basic

/-! Statements and blocks of a tree and its twin. -/
namespace TreeScribe

open Atoms Render

namespace Twins

variable {T : Twins} {d d' : Doc}

section Statements

variable {ds ds' : List Doc}

theorem blankBetween_eq {p p' : Doc} (hp : T.Body p p') (hd : T.Body d d') :
    blankBetween p d = blankBetween p' d' := by
  rw [blankBetween, blankBetween, hd.kind, hp.kind, hd.isMultiLine, hp.isMultiLine]

theorem matches_next {p p' : Doc} (hp : T.Body p p') (hd : T.Body d d') :
    Matches T.base (newline ++ Atoms.when (blankBetween p d) newline ++ d.atoms)
      (newline ++ Atoms.when (blankBetween p' d') newline ++ d'.atoms) := by
  have htwice : Matches T.base (newline ++ (newline ++ d.atoms)) (newline ++ (newline ++ d'.atoms)) :=
    .append .newline hd.atoms
  rw [blankBetween_eq hp hd]
  cases blankBetween p' d' with
  | true => exact htwice
  | false => exact hd.atoms

theorem matches_followed {p p' : Doc} (hp : T.Body p p') (h : List.Forall₂ T.Body ds ds') :
    Matches T.base (followed p ds) (followed p' ds') := by
  induction h generalizing p p' with
  | nil => exact .nil
  | cons hd _ ih => exact .append (matches_next hp hd) (ih hd)

theorem matches_followedDeclarations {p p' : Doc} (hp : T.Body p p') {declared declared' : List Doc}
    (hdeclared : List.Forall₂ T.Body declared declared') (h : List.Forall₂ T.Body ds ds') :
    Matches T.base (followedDeclarations p ds declared) (followedDeclarations p' ds' declared') := by
  induction hdeclared generalizing p p' with
  | nil =>
    cases h with
    | nil => exact .nil
    | cons hd hds =>
      have hfirst := Matches.append .newline hd.atoms
      exact hfirst.append (matches_followed hd hds)
  | cons hd _ ih => exact .append (matches_next hp hd) (ih hd)

theorem getLast?_any_endsWithJump (h : List.Forall₂ T.Body ds ds') :
    ds.getLast?.any (·.endsWithJump) = ds'.getLast?.any (·.endsWithJump) := by
  induction h with
  | nil => rfl
  | cons hd hds ih =>
    cases hds with
    | nil => exact hd.endsWithJump
    | cons _ _ => simpa [List.getLast?_cons_cons] using ih

theorem body_joinStatements (ty : TypeRef) {declared declared' : List Doc}
    (hdeclared : List.Forall₂ T.Body declared declared') (h : List.Forall₂ T.Body ds ds') :
    T.Body (joinStatements ty declared ds) (joinStatements ty declared' ds') := by
  refine ⟨⟨rfl, rfl, rfl, getLast?_any_endsWithJump (List.rel_append hdeclared h), rfl⟩, ?_⟩
  cases hdeclared with
  | nil =>
    cases h with
    | nil => exact .append .newline .nil
    | cons hd hds =>
      have hall := hd.atoms.append (matches_followed hd hds)
      exact hall
  | cons hd hds =>
    have hall := hd.atoms.append (matches_followedDeclarations hd hds h)
    exact hall

/-- The variables declared at the top of a block are the same. -/
theorem declarations_alike {node : Nat}
    (h : T.other.blockDeclarations (T.label node) = T.analysis.blockDeclarations node) :
    declarations T.twin (T.label node) = declarations T.env node ∧
      List.Forall₂ T.Body (declarations T.env node) (declarations T.env node) := by
  refine ⟨?_, ?_⟩
  · unfold declarations
    show List.map _ (List.foldl _ [] (T.other.blockDeclarations (T.label node))) = _
    rw [h]
    rfl
  · rw [List.forall₂_same]
    intro d hd
    obtain ⟨⟨ty, names⟩, -, rfl⟩ := List.mem_map.mp hd
    refine Part.body ⟨⟨rfl, rfl, rfl, rfl, rfl⟩, ?_⟩
    refine .append (.append (.append (.typeName _ ty) .space) (.separated _ ?_)) (.text _)
    rw [List.forall₂_map_left_iff, List.forall₂_map_right_iff, List.forall₂_same]
    exact fun name _ => .varName name

end Statements

section Blocks

variable {e : Expr} {es : List Expr} {node : Nat}

theorem alike_inPosition {position : Position}
    (h : T.Agrees (.child (.inPosition position) e)) :
    Alike T.Line ((T.child e).2.inPosition position) ((T.twinOf e).2.inPosition position) := by
  cases position with
  | value => exact Alike.mono h fun d d' hd => Part.line hd
  | statement => exact h
  | returning => exact h

theorem alike_lastStatement {last : Position} {afterJump : Bool}
    (h : T.AgreesOn [.one (.child (DocEnding.lastMode last afterJump e) e)]) :
    Alike T.Line (lastStatement last afterJump (T.child e)) (lastStatement last afterJump (T.twinOf e)) := by
  have h := h.one
  unfold lastStatement
  unfold DocEnding.lastMode at h
  rw [isLabel_relabel]
  dsimp only
  split at h
  next hlabel =>
    rw [if_pos hlabel, if_pos hlabel]
    exact h
  next hlabel =>
    rw [if_neg hlabel, if_neg hlabel]
    exact alike_inPosition h

theorem alike_statementsFrom (last : Position) (afterJump : Bool)
    (hends : ∀ e ∈ es, T.env.EndsWell e)
    (h : T.AgreesOn (Arrangement.statements T.env last afterJump es)) :
    Alike (List.Forall₂ T.Body) (statementsFrom last afterJump (es.map T.child))
      (statementsFrom last afterJump (es.map T.twinOf)) := by
  induction es generalizing afterJump with
  | nil => exact .pure .nil
  | cons e es ih =>
    have hrest (afterJump : Bool) := ih afterJump fun e' he => hends e' (List.mem_cons_of_mem _ he)
    have hnext {x x' : Rendering Doc} {mode : Mode} (hx : Alike T.Line x x')
        (hx' : Ends x (T.env.ending e mode))
        (h : T.AgreesOn (Arrangement.statements T.env last (if (T.env.ending e mode).isEmpty then
          afterJump else (T.env.ending e mode).endsWithJump) es)) :
        Alike (List.Forall₂ T.Body) (do
            let d ← x
            if d.isEmpty then statementsFrom last afterJump (es.map T.child)
            else do
              return d.terminated ::
                (← statementsFrom last d.terminated.endsWithJump (es.map T.child)))
          (do
            let d ← x'
            if d.isEmpty then statementsFrom last afterJump (es.map T.twinOf)
            else do
              return d.terminated ::
                (← statementsFrom last d.terminated.endsWithJump (es.map T.twinOf))) := by
      refine hx.bind_of hx' fun d d' hd hending => ?_
      have hempty : (T.env.ending e mode).isEmpty = d.isEmpty :=
        congrArg DocEnding.isEmpty hending.symm
      have hjump : (T.env.ending e mode).endsWithJump = d.terminated.endsWithJump := by
        rw [← hending]
        unfold Doc.terminated
        split <;> rfl
      rw [hempty, hjump] at h
      rw [← hd.isEmpty, ← hd.terminated.endsWithJump]
      split at h
      next hskip =>
        rw [if_pos hskip, if_pos hskip]
        exact hrest afterJump h
      next hskip =>
        rw [if_neg hskip, if_neg hskip]
        exact (hrest _ h).last fun ds ds' hds => .cons hd.terminated hds
    have hwell : ChildEnds (T.child e) (e, T.env.ending e) := ⟨rfl, hends e (List.mem_cons_self ..)⟩
    rw [Arrangement.statements] at h
    rw [List.map_cons, List.map_cons, statementsFrom, statementsFrom, Node.isEmpty_relabel,
      List.isEmpty_map, List.isEmpty_map]
    dsimp only
    split at h
    next hskip =>
      rw [if_pos hskip, if_pos hskip]
      exact hrest afterJump h
    next hskip =>
      rw [if_neg hskip, if_neg hskip]
      obtain ⟨hone, hmore⟩ := AgreesOn.cons_iff.mp h
      split at hone
      next hlast =>
        rw [if_pos hlast] at hmore
        rw [if_pos hlast, if_pos hlast]
        exact hnext (alike_lastStatement hone) (ends_lastStatement hwell last afterJump) hmore
      next hlast =>
        rw [if_neg hlast] at hmore
        rw [if_neg hlast, if_neg hlast]
        exact hnext (alike_inPosition hone.one) (hwell.ends.inPosition .statement) hmore

variable (hdeclared : T.other.blockDeclarations (T.label node) = T.analysis.blockDeclarations node)
  (hends : ∀ e ∈ es, T.env.EndsWell e)
include hdeclared hends

theorem alike_blockStatements (ty : TypeRef) (role : BlockRole)
    (h : T.AgreesOn (Arrangement.block T.env es ty role)) :
    Alike (fun d d' => T.Body d d' ∧ d.isTerminated = true)
      (blockStatements T.env node (es.map T.child) ty role)
      (blockStatements T.twin (T.label node) (es.map T.twinOf) ty role) := by
  obtain ⟨hsame, hself⟩ := declarations_alike hdeclared
  have hjump : (declarations T.env node).getLast?.any (·.endsWithJump) = false := by
    cases hlast : (declarations T.env node).getLast? with
    | none => rfl
    | some d =>
      obtain ⟨group, -, rfl⟩ := List.mem_map.mp (List.mem_of_getLast? hlast)
      rfl
  unfold blockStatements
  dsimp only
  rw [hsame, hjump]
  exact (alike_statementsFrom _ false hends h).last fun ds ds' hds =>
    ⟨body_joinStatements ty hself hds, rfl⟩

theorem alike_nestedBlock (locals : List Variable) (ty : TypeRef) (returns : Bool)
    (h : T.AgreesOn (Arrangement.block T.env es ty (BlockRole.ofBody returns))) :
    Alike T.Statement (nestedBlock T.env node locals (es.map T.child) ty returns)
      (nestedBlock T.twin (T.label node) locals (es.map T.twinOf) ty returns) := by
  refine (alike_blockStatements hdeclared hends ty _ h).last fun d d' ⟨hd, hclosed⟩ => ?_
  split
  · exact .closed hd hclosed
  · exact .part hd.braced

theorem alike_spelledBlock (hcalls : T.calls.lookup (T.label node) = T.calls.lookup node) (ty : TypeRef)
    (h : T.AgreesOn (if (T.env.calls.lookup node).isSome then []
      else Arrangement.block T.env es ty .value)) :
    Alike T.Part (match T.calls.lookup node with
      | some call => return extractedCall call ty
      | none => do return (← blockStatements T.env node (es.map T.child) ty .value).braced)
    (match T.calls.lookup (T.label node) with
      | some call => return extractedCall call ty
      | none => do
        return (← blockStatements T.twin (T.label node) (es.map T.twinOf) ty .value).braced) := by
  rw [hcalls]
  cases hlookup : T.calls.lookup node with
  | some call =>
    refine .pure ⟨⟨rfl, rfl, rfl, rfl, rfl⟩, .append (.methodName _) (.parens (.separated _ ?_))⟩
    rw [List.forall₂_map_left_iff, List.forall₂_map_right_iff, List.forall₂_same]
    exact fun p _ => .append (.when _ (.append (.keyword _) .space)) (.varName _)
  | none =>
    have hnone : T.env.calls.lookup node = none := hlookup
    rw [hnone] at h
    exact (alike_blockStatements hdeclared hends ty .value h).last fun d d' hd => hd.1.braced

theorem alike_valueBlock (hcalls : T.calls.lookup (T.label node) = T.calls.lookup node)
    (locals : List Variable) (ty : TypeRef)
    (h : T.AgreesOn (Arrangement.valueBlock T.env node locals es ty)) :
    Alike T.Part (valueBlock T.env node locals (es.map T.child) ty)
      (valueBlock T.twin (T.label node) locals (es.map T.twinOf) ty) := by
  have hspelled := alike_spelledBlock hdeclared hends hcalls ty
  unfold valueBlock
  unfold Arrangement.valueBlock at h
  cases locals with
  | cons v locals => exact hspelled h
  | nil =>
    cases es with
    | nil => exact hspelled h
    | cons e es =>
      cases es with
      | nil => exact alike_value h
      | cons _ _ => exact hspelled h

end Blocks

end Twins

end TreeScribe
