import TreeScribe.Proofs.Render.Arrangement.Operators

/-! The pieces of calls, members and lists of arguments. -/
namespace TreeScribe

namespace Render

open Arrangement

variable (env : Env)

theorem marks_itemLines (ds : List Doc) : (itemLines ds).marks = ds.flatMap Doc.marks := by
  induction ds with
  | nil => rfl
  | cons d ds ih =>
    cases ds with
    | nil => simp [itemLines, Doc.marks]
    | cons d' ds =>
      have hlines : itemLines (d :: d' :: ds) =
          Atoms.newline ++ d.atoms ++ Atoms.text "," ++ itemLines (d' :: ds) :=
        rfl
      rw [hlines, Atoms.marks_append, ih]
      simp [Doc.marks]

theorem marks_parenthesizedList (ds : List Doc) :
    (parenthesizedList ds).marks = ds.flatMap Doc.marks := by
  show (Atoms.parens (if listWraps ds then _ else _)).marks = _
  rw [Atoms.marks_parens]
  split
  · rw [Atoms.marks_indented, marks_itemLines]
  · exact marks_separated ", " ds

theorem adds_argument (e : Expr) (mode : PassingMode) :
    Adds env Doc.marks (argument env (env.child e) mode) [] (Arrangement.argument e mode) := by
  cases mode with
  | value => exact adds_value env e
  | ref => exact (adds_value env e).last fun d => by simp [Doc.marks]
  | out =>
    have houtput : Adds env Atoms.marks (outputAtoms env (env.child e)) [] [.one (.output e)] := by
      intro declared
      rw [env.marksOf_one]
      exact ⟨rfl, rfl⟩
    exact houtput.cons fun as => (adds_value env e).last fun d => by simp [Doc.marks]

theorem adds_arguments (es : List Expr) (ps : List ParameterInfo) :
    Adds env (List.flatMap Doc.marks) (arguments env (es.map env.child) ps) []
      (Arrangement.arguments es ps) := by
  induction es generalizing ps with
  | nil => exact .pure rfl
  | cons e es ih =>
    have hnext (mode : PassingMode) (ps : List ParameterInfo) :
        Adds env (List.flatMap Doc.marks) (do
          let d ← argument env (env.child e) mode
          return d :: (← arguments env (es.map env.child) ps)) []
          (Arrangement.argument e mode ++ Arrangement.arguments es ps) :=
      (adds_argument env e mode).append fun d => (ih ps).last fun ds => rfl
    cases ps with
    | nil => exact hnext .value []
    | cons p ps =>
      show Adds env _ (if p.isParams && (es.map env.child).isEmpty && isElementArray e then _ else _)
        [] (Arrangement.arguments (e :: es) (p :: ps))
      rw [List.isEmpty_map, Arrangement.arguments]
      split
      · exact adds_elements env e
      · exact hnext p.mode ps

theorem adds_argumentList (es : List Expr) (ps : List ParameterInfo) :
    Adds env Doc.marks (argumentList env (es.map env.child) ps) [] (Arrangement.arguments es ps) :=
  (adds_arguments env es ps).last marks_parenthesizedList

/-- Without parameters all arguments are passed by value. -/
theorem arguments_nil (es : List Expr) : Arrangement.arguments es [] = Arrangement.values es := by
  induction es with
  | nil => rfl
  | cons e es ih =>
    rw [Arrangement.arguments, ih]
    rfl

theorem adds_indexList (es : List Expr) :
    Adds env Doc.marks (indexList (es.map env.child)) [] (Arrangement.values es) :=
  (adds_values env es).last fun ds => by simp [Doc.marks]

theorem adds_callAtoms (subject : Atoms) (m : MethodInfo) (es : List Expr)
    (ps : List ParameterInfo) :
    Adds env Atoms.marks (callAtoms env subject m (es.map env.child) ps) subject.marks
      (Arrangement.access m es ps) := by
  have hcall : Adds env Atoms.marks (methodCall env subject m (es.map env.child) ps) subject.marks
      (Arrangement.arguments es ps) := by
    refine (adds_argumentList env es ps).last fun d => ?_
    unfold genericArguments Doc.marks
    split <;> simp [Env.typeName, List.flatMap_map]
  unfold callAtoms Arrangement.access
  cases m.property? with
  | none => exact hcall
  | some property =>
    dsimp only
    rw [List.isEmpty_map]
    split
    · exact .pure (by simp)
    · split
      · exact (adds_indexList env es).last fun d => by simp [Doc.marks]
      · rw [List.getLast?_map, ← List.map_dropLast]
        cases m.isSetter with
        | false => exact hcall
        | true =>
          cases es.getLast? with
          | none => exact hcall
          | some last =>
            have hset (lead : Atoms) : Adds env Atoms.marks (do
                let d ← value (env.child last)
                return subject ++ lead ++ Atoms.operator Level.lambda " = " ++ d.atoms)
                (subject.marks ++ lead.marks) [Arrangement.value last] :=
              (adds_value env last).last fun d => by simp [Doc.marks]
            dsimp only [Option.map_some]
            split
            · exact (adds_indexList env es.dropLast).append fun d => hset d.atoms
            · simpa using hset (Atoms.text "." ++ Atoms.text property)

theorem adds_call (receiver : Option Expr) (m : MethodInfo) (es : List Expr) :
    Adds env Doc.marks (call env (receiver.map env.child) m (es.map env.child)) []
      (Arrangement.call env receiver m es) := by
  unfold call Arrangement.call
  dsimp only
  split
  · refine (adds_mapM env (fun e => adds_operand env e _) es).last fun ds => ?_
    unfold Doc.marks
    rw [Atoms.marks_joinedBy rfl, List.flatMap_map]
    rfl
  · -- what stands before the point is a child or a type
    have hon (e : Expr) (es : List Expr) (ps : List ParameterInfo) : Adds env Doc.marks (do
        let d ← operand (env.child e) Level.primary
        let as ← callAtoms env d.atoms m (es.map env.child) ps
        return { kind := .call, ty := m.closedReturnType, atoms := as }) []
        (Arrangement.value e :: Arrangement.access m es ps) :=
      (adds_operand env e _).cons fun d => (adds_callAtoms env d.atoms m es ps).map fun as => rfl
    have hstatic (ps : List ParameterInfo) : Adds env Doc.marks (do
        let as ← callAtoms env (env.typeName m.declaring) m (es.map env.child) ps
        return { kind := .call, ty := m.closedReturnType, atoms := as }) []
        (Arrangement.access m es ps) := by
      have hatoms := adds_callAtoms env (env.typeName m.declaring) m es ps
      rw [Env.typeName, Atoms.marks_typeName] at hatoms
      exact hatoms.map fun as => rfl
    unfold receiverOf
    cases receiver with
    | some e => exact hon e es _
    | none =>
      cases m.isExtension with
      | false => exact hstatic _
      | true =>
        cases es with
        | nil => exact hstatic _
        | cons e es => exact hon e es _

theorem adds_invoke (target : Expr) (es : List Expr) (ty : TypeRef) :
    Adds env Doc.marks (invoke env (env.child target) (es.map env.child) ty) []
      (Arrangement.values (target :: es)) := by
  have harguments := adds_argumentList env es []
  rw [arguments_nil] at harguments
  unfold invoke
  simp only [pure_bind]
  split
  · exact (adds_value env target).cons fun d => harguments.last fun list => by
      simp [Doc.marks, Doc.parenthesized]
  · exact (adds_operand env target _).cons fun d => harguments.last fun list => by
      simp [Doc.marks]

theorem adds_memberAccess (receiver : Option Expr) (info : MemberInfo) :
    Adds env Doc.marks (memberAccess env (receiver.map env.child) info) []
      (Arrangement.values (receiver.toList.filter (!·.isClosure))) := by
  cases receiver with
  | none => exact .pure (by simp [Doc.marks, Env.typeName])
  | some e =>
    have hother : Adds env Doc.marks (do
        let d ← operand (env.child e) Level.primary
        return { kind := .memberAccess, ty := info.memberType
                 atoms := d.atoms ++ Atoms.text "." ++ Atoms.text info.name }) []
        [Arrangement.value e] :=
      (adds_operand env e _).last fun d => by simp [Doc.marks]
    obtain ⟨node, form⟩ := e
    cases form with
    | constant c =>
      obtain ⟨value, ty⟩ := c
      cases value with
      | closure fields =>
        -- a captured variable is no child
        dsimp only [Option.map_some, memberAccess, Env.child, Node.form]
        cases fields.find? (·.name == info.name) with
        | none => exact .pure (by simp [Doc.marks])
        | some field =>
          dsimp only
          split
          · exact .pure (marks_literal env _ _)
          · exact .pure (by simp [Doc.marks])
      | _ => exact hother
    | _ => exact hother

theorem adds_index (object : Expr) (es : List Expr) (ty : TypeRef) :
    Adds env Doc.marks (index (env.child object) (es.map env.child) ty) []
      (Arrangement.values (object :: es)) :=
  (adds_operand env object _).cons fun d => (adds_indexList env es).last fun list => by
    simp [Doc.marks]

end Render

end TreeScribe
