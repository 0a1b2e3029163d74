import TreeScribe.Proofs.Analysis.Keeps
import TreeScribe.Proofs.Render.Alike
import TreeScribe.Proofs.Render.Requests

/-! Declarations that are joined with an assignment.

An assignment may declare its variable only where it is a statement. The visit decides which
assignments do so, and rendering writes the declaration wherever it comes to that node. Since rendering
asks for nodes only where the visit has met them, the declaration starts a line, and what is written
from there to the next semicolon is the assignment as a statement of its own
(`Env.settled_ofExpr`). -/
namespace TreeScribe

open Atoms

namespace Analysis

/-- The variable is declared together with its first assignment. -/
def IsJoined (a : Analysis) (slot : Slot) : Prop :=
  ∃ v, a.scopes.info? slot = some v ∧ v.declaration = .joinedAssignment

/-- The node declares the variable that it assigns to. -/
def Joins (a : Analysis) (node : Nat) (slot : Slot) : Prop :=
  a.target? node = some slot ∧ (a.scopes.info? slot).any (·.joined? == some node) = true

theorem Joins.carrier {a : Analysis} {node : Nat} {slot : Slot} (h : a.Joins node slot) :
    ∃ v, a.scopes.info? slot = some v ∧ v.carrier = some node := by
  obtain ⟨v, hv, hjoined⟩ := (Option.any_eq_true ..).mp h.2
  refine ⟨v, hv, ?_⟩
  unfold VariableInfo.joined? at hjoined
  split at hjoined
  · exact eq_of_beq hjoined
  · cases hjoined

end Analysis

/-- An assignment of a tree to a variable, written as a statement and closed by a semicolon. -/
def Env.IsAssignmentStatement (env : Env) (root : Expr) (slot : Slot) (written : Atoms) : Prop :=
  ∃ x declared, x ∈ root.nodes ∧ env.analysis.Joins x.label slot ∧
    written = (((env.renderer x).inPosition .statement).run declared).1.atoms ++ text ";"

/-- Every declaration that is joined with an assignment starts a line, and starts the statement. -/
def Env.Settled (env : Env) (root : Expr) (as : Atoms) : Prop :=
  ∀ before slot after, as = before ++ .declaration slot :: after → env.analysis.IsJoined slot →
    (∃ lines, before = lines ++ newline) ∧ ∃ written rest,
      .declaration slot :: after = written ++ rest ∧ env.IsAssignmentStatement root slot written

/-- The end of a node declares nothing. -/
theorem Doc.atoms_noted (d : Doc) (node : Nat) : ∃ tail : Atoms,
    (d.noted node).atoms = d.atoms ++ tail ∧ ∀ slot, .declaration slot ∉ tail := by
  unfold Doc.noted
  split
  · exact ⟨[], (List.append_nil _).symm, nofun⟩
  · exact ⟨_, rfl, fun slot hmem => by cases List.mem_singleton.mp hmem⟩

@[simp] theorem Doc.isTerminated_noted (d : Doc) (node : Nat) :
    (d.noted node).isTerminated = d.isTerminated := by
  unfold Doc.noted
  split <;> rfl

theorem Doc.atoms_terminated {d : Doc} (h : d.isTerminated = false) :
    d.terminated.atoms = d.atoms ++ text ";" := by
  simp [Doc.terminated, h]

namespace Env

variable {env : Env} {root : Expr} {as bs : Atoms}

namespace Settled

/-- Where nothing is joined. -/
theorem of_not_joined (h : ∀ slot, .declaration slot ∈ as → ¬env.analysis.IsJoined slot) :
    env.Settled root as := by
  intro before slot after heq hjoined
  refine absurd hjoined (h slot ?_)
  rw [heq]
  exact List.mem_append_right _ (List.mem_cons_self ..)

theorem of_marks (h : as.marks = []) : env.Settled root as := by
  refine of_not_joined fun slot hmem => ?_
  have hmark : Atom.declaration slot ∈ as.marks := List.mem_filter.mpr ⟨hmem, rfl⟩
  rw [h] at hmark
  cases hmark

theorem append (has : env.Settled root as) (hbs : env.Settled root bs) :
    env.Settled root (as ++ bs) := by
  intro before slot after heq hjoined
  rcases List.append_eq_append_iff.mp heq with ⟨before', rfl, hbs'⟩ | ⟨after', has', hrest⟩
  · obtain ⟨⟨lines, rfl⟩, hstatement⟩ := hbs before' slot after hbs' hjoined
    exact ⟨⟨as ++ lines, (List.append_assoc ..).symm⟩, hstatement⟩
  · cases after' with
    | nil =>
      obtain ⟨⟨lines, hlines⟩, hstatement⟩ := hbs [] slot after hrest.symm hjoined
      exact absurd hlines (by simp [newline])
    | cons a after' =>
      obtain ⟨rfl, rfl⟩ := List.cons.inj hrest
      obtain ⟨hlines, written, rest, hwritten, hstatement⟩ := has before slot after' has' hjoined
      refine ⟨hlines, written, rest ++ bs, ?_, hstatement⟩
      rw [← List.append_assoc, ← hwritten]
      rfl

theorem braced {d : Doc} (h : env.Settled root (newline ++ d.atoms)) :
    env.Settled root d.braced.atoms := by
  have hone (a : Atom) (ha : a.isMark = false) : env.Settled root [a] :=
    .of_marks (by simp [marks, ha])
  unfold Doc.braced
  refine ((hone _ rfl).append (append ?_ (hone .newline rfl))).append (hone _ rfl)
  split
  · exact .of_marks rfl
  · exact ((hone .indent rfl).append h).append (hone .unindent rfl)

/-- A statement on a line of its own, which starts with the declaration. -/
theorem statement {slot : Slot} {inner : Atoms} (hinner : env.Settled root inner)
    (hstatement : env.IsAssignmentStatement root slot (.declaration slot :: inner)) :
    env.Settled root (newline ++ .declaration slot :: inner) := by
  intro before slot' after heq hjoined
  rcases before with _ | ⟨a, _ | ⟨b, before⟩⟩
  · cases heq
  · cases heq
    exact ⟨⟨[], rfl⟩, .declaration slot :: inner, [], (List.append_nil _).symm, hstatement⟩
  · have hrest : inner = before ++ .declaration slot' :: after := (List.cons.inj (List.cons.inj heq).2).2
    obtain ⟨⟨lines, rfl⟩, hwritten⟩ := hinner before slot' after hrest hjoined
    exact ⟨⟨a :: b :: lines, rfl⟩, hwritten⟩

end Settled

theorem settled_note (n : Note) : env.Settled root (Atoms.note n) := by
  refine .of_not_joined fun slot hmem => ?_
  cases List.mem_singleton.mp hmem

/-- Matching up to sequences that are settled. -/
theorem settled_of_matches (h : Matches (fun as bs => as = bs ∧ env.Settled root as) as bs) :
    env.Settled root as := by
  have hone (a : Atom) (ha : a.isMark = false) : env.Settled root [a] :=
    .of_marks (by simp [marks, ha])
  induction h with
  | nil => exact .of_marks rfl
  | base h => exact h.2
  | @plain a _ ha => exact hone a ha
  | note n n' => exact settled_note n
  | append _ _ ih ih' => exact ih.append ih'
  | indented _ ih => exact ((hone .indent rfl).append ih).append (hone .unindent rfl)
  | bracketed opening closing _ ih =>
    exact ((hone (.opening opening) rfl).append ih).append (hone (.closing closing) rfl)

/-- A tree and itself, whose atoms are to be settled. -/
def settling (env : Env) (hcustom : env.settings.custom = []) (root : Expr) : Twins where
  settings := env.settings
  analysis := env.analysis
  other := env.analysis
  calls := env.calls
  label := id
  base as bs := as = bs ∧ env.Settled root as
  custom := hcustom
  isJumpTarget _ := rfl
  outline := by
    rintro as _ ⟨rfl, -⟩
    rfl

section Pieces

variable {hcustom : env.settings.custom = []}

theorem alike_of_gives {x : Rendering Atoms} (h : Gives x (env.Settled root)) :
    Alike (Matches (env.settling hcustom root).base) x x :=
  fun declared => ⟨.base ⟨rfl, h declared⟩, rfl⟩

theorem gives_settled_output (e : Expr) :
    Gives (Render.outputAtoms env (env.child e)) (env.Settled root) := by
  intro declared
  refine .of_not_joined fun slot hmem => ?_
  have hmark : Atom.declaration slot ∈ ((env.marksOfPiece (.output e)).run declared).1 :=
    List.mem_filter.mpr ⟨hmem, rfl⟩
  rintro ⟨v, hv, hjoined⟩
  cases htarget : env.analysis.target? e.label with
  | none =>
    unfold marksOfPiece Render.outputAtoms at hmark
    dsimp only at hmark
    rw [htarget] at hmark
    cases hmark
  | some target =>
    rw [run_marks_output e htarget] at hmark
    split at hmark
    next hinline =>
      dsimp only at hmark
      split at hmark
      · cases List.mem_singleton.mp hmark
        simp [hv, hjoined] at hinline
      · cases hmark
    · cases hmark

/-- An assignment that does not declare its variable adds nothing. -/
theorem gives_settled_assignment {node : Nat} (left : Expr) (h : ∀ slot, ¬env.analysis.Joins node slot) :
    Gives (Render.declaringAtoms env node (env.child left)) (env.Settled root) := by
  intro declared
  refine .of_not_joined fun slot hmem => ?_
  have hmark : Atom.declaration slot ∈ ((env.marksOfPiece (.assignment node left)).run declared).1 :=
    List.mem_filter.mpr ⟨hmem, rfl⟩
  cases htarget : env.analysis.target? node with
  | none =>
    unfold marksOfPiece Render.declaringAtoms at hmark
    dsimp only at hmark
    rw [htarget] at hmark
    cases hmark
  | some target =>
    rw [run_marks_assignment node left htarget] at hmark
    split at hmark
    next hentitled =>
      exact absurd ⟨htarget, (Bool.and_eq_true_iff.mp hentitled).1⟩ (h target)
    · cases hmark

theorem settled_mention (node : Nat) (name : String) : env.Settled root (mention node name) := by
  refine .of_not_joined fun slot hmem => ?_
  unfold mention at hmem
  split at hmem
  · cases hmem
  · cases List.mem_singleton.mp hmem

/-- What an assignment that declares its variable starts with. -/
theorem gives_lead {node : Nat} {slot : Slot} (h : env.analysis.Joins node slot) (left : Expr) :
    Gives (Render.declaringAtoms env node (env.child left)) fun as =>
      as = [] ∨ ∃ tail : Atoms, as = .declaration slot :: tail ∧ tail.marks = [] := by
  intro declared
  unfold Render.declaringAtoms ScopeTree.declaresAssignment
  rw [h.1]
  dsimp only
  rw [StateT.run_bind, ScopeTree.run_claim]
  split
  · cases env.analysis.isTypedJoin node with
    | true => exact .inr ⟨_, rfl, marks_typeName_space left.ty⟩
    | false => exact .inr ⟨_, rfl, rfl⟩
  · exact .inl rfl

theorem made_leaf {e : Expr} (hleaf : e.isLeaf = true) (request : Mode) :
    (env.settling hcustom root).Made request (env.renderer e) (env.renderer (e.relabel id)) := by
  obtain ⟨node, form⟩ := e
  have hlookups : (env.settling hcustom root).SameLookups node form := by
    cases form <;> first | exact trivial | cases hleaf
  have hagrees (request : Mode) :
      (env.settling hcustom root).AgreesOn (Arrangement.ofForm env node form request) := by
    intro p hp
    have hp' : ∃ v : Variable, p = .mention node v.writtenName := by
      cases form with
      | parameter v => rcases request with (_ | _ | _) | (_ | _) | _ | _ | _ <;>
          first | exact ⟨v, List.mem_singleton.mp hp⟩ | cases hp
      | default ty => rcases request with (_ | _ | _) | (_ | _) | _ | _ | _ <;> cases hp
      | _ => cases hleaf
    obtain ⟨v, rfl⟩ := hp'
    exact .base ⟨rfl, settled_mention node v.writtenName⟩
  refine Twins.made_ofForm hlookups (fun _ _ locals es ty hblock => ?_) (hagrees request)
  subst hblock
  cases hleaf

end Pieces

section Tree

variable {mode : AnalysisMode} {position : Position} (hcustom : env.settings.custom = [])
  (hanalysis : env.analysis = Visit.run env.settings mode root position)
  (hnodup : root.labels.Nodup)

include hanalysis hnodup in
/-- An assignment that declares its variable was met as a statement. -/
theorem position_of_joins {e : Expr} {q : Position}
    (hmeets : Visit.Meets env.settings mode root position e q) {slot : Slot}
    (hjoins : env.analysis.Joins e.label slot) : q = .statement := by
  obtain ⟨v, hv, hcarrier⟩ := hjoins.carrier
  rw [hanalysis] at hv
  obtain ⟨x, hx, hlabel⟩ := Visit.meets_of_carrier hv hcarrier
  exact (hmeets.eq_of_label hnodup hx hlabel.symm).2

/-- Only where a statement is asked for does a position as a statement fit. -/
theorem request_of_fits {node : Nat} {op : BinaryOp} {left right : Expr} {ty : TypeRef}
    {m : Option MethodInfo} {request : Mode}
    (h : Fits True .statement (.mk node (.binary op left right ty m)) request) :
    request = .inPosition .statement ∨ request = .body false := by
  rcases request with (_ | _ | _) | (_ | _) | _ | _ | _
  · simp [Fits] at h
  · exact .inl rfl
  · simp [Fits] at h
  · exact .inr rfl
  · simp [Fits] at h
  · obtain ⟨_, _, _, _, hform, _⟩ := h
    cases hform
  · simp [Fits] at h
  · cases h

/-- An assignment that declares its variable, as a statement. -/
theorem settled_assignment {node : Nat} {op : BinaryOp} (hop : op.isAssignment = true) {left right : Expr}
    (ty : TypeRef) (m : Option MethodInfo) (hmem : .mk node (.binary op left right ty m) ∈ root.nodes) {slot : Slot}
    (hjoins : env.analysis.Joins node slot)
    (hleft : (env.settling hcustom root).AgreesOn [Arrangement.value left])
    (hright : (env.settling hcustom root).AgreesOn [Arrangement.value right]) :
    Gives ((env.renderer (.mk node (.binary op left right ty m))).inPosition .statement) fun d =>
      env.Settled root (newline ++ d.terminated.atoms) := by
  have hwritten : (env.renderer (.mk node (.binary op left right ty m))).inPosition .statement =
      Doc.noted node <$> Render.assignment env node op (env.child left) (env.child right) ty := by
    rw [Env.renderer_mk]
    show Doc.noted node <$> Render.asStatement env node _ = _
    simp only [Render.asStatement, Render.asValue, custom?_eq_none hcustom, pure_bind, Form.map,
      Render.builtIn, if_pos hop]
  have hlead : Alike (fun as _ => as = [] ∨ ∃ tail : Atoms, as = .declaration slot :: tail ∧ tail.marks = [])
      (Render.declaringAtoms env node (env.child left))
      (Render.declaringAtoms env node (env.child (left.relabel id))) := by
    rw [Node.relabel_id]
    exact fun declared => ⟨gives_lead hjoins left declared, rfl⟩
  intro declared
  obtain ⟨⟨-, hopen, as, _, rest, _, has, hmatches, heq, -⟩, -⟩ :=
    Twins.alike_assignment_lead hleft hright hlead op ty declared
  obtain ⟨tail, hnoted, htail⟩ := Doc.atoms_noted ((Render.assignment env node op (env.child left)
    (env.child right) ty).run declared).1 node
  have hend : env.Settled root (tail ++ text ";") :=
    Settled.append (.of_not_joined fun slot hmem => absurd hmem (htail slot)) (.of_marks rfl)
  have hrest : env.Settled root (rest ++ (tail ++ text ";")) :=
    (settled_of_matches hmatches).append hend
  have hwhole : (((env.renderer (.mk node (.binary op left right ty m))).inPosition .statement).run
      declared).1.atoms = as ++ rest ++ tail := by
    rw [← heq, hwritten]
    exact hnoted
  have hclosed : (((env.renderer (.mk node (.binary op left right ty m))).inPosition .statement).run
      declared).1.terminated.atoms = as ++ (rest ++ (tail ++ text ";")) := by
    rw [Doc.atoms_terminated ?_, hwhole, List.append_assoc, List.append_assoc]
    rw [hwritten]
    exact (Doc.isTerminated_noted _ node).trans hopen
  rw [hclosed]
  rcases has with rfl | ⟨lead, rfl, hlead⟩
  · exact Settled.append (.of_marks rfl) hrest
  · have hline : .declaration slot :: lead ++ (rest ++ (tail ++ text ";")) =
        .declaration slot :: (lead ++ (rest ++ (tail ++ text ";"))) := rfl
    rw [hline]
    refine .statement ((Settled.of_marks hlead).append hrest)
      ⟨.mk node (.binary op left right ty m), declared, hmem, hjoins, ?_⟩
    rw [hwhole, ← hline, List.append_assoc, List.append_assoc]

include hanalysis hnodup in
/-- **What is made of a node where the visit met it is settled.** -/
theorem made_of_meets (hserves : env.Serves mode root position) (hchains : root.chainsFit = true)
    (e : Expr) {q : Position} (hmeets : Visit.Meets env.settings mode root position e q) {request : Mode}
    (hfits : Fits True q e request) :
    (env.settling hcustom root).Made request (env.renderer e) (env.renderer (e.relabel id)) := by
  induction e using Node.induction generalizing q request with
  | h node form ih =>
    have hcovers : Covers True (form.Leads node) (Moves.visits env.settings mode (.mk node form) q)
        (Arrangement.ofForm env node form request) := by
      refine covers_ofForm True env mode node form (fun _ => Node.chainsFit_of_mem_nodes hchains hmeets.mem_nodes) ?_ hfits
      rintro rfl
      exact hserves _ hmeets
    have hlookups : (env.settling hcustom root).SameLookups node form := by
      cases form <;> first | exact trivial | exact ⟨rfl, rfl⟩ | exact fun _ _ => rfl |
        exact fun _ _ _ _ => rfl
    have hpiece (p : Piece) (hp : p ∈ (Arrangement.ofForm env node form request).flatMap Step.pieces)
        (hlead : ∀ left slot, p = .assignment node left → form.Leads node node →
          ¬env.analysis.Joins node slot) : (env.settling hcustom root).Agrees p := by
      have hcovered := hcovers p hp
      cases p with
      | child request' c =>
        rcases hcovered with hleaf | ⟨q', hvisit, hfits'⟩
        · exact made_leaf hleaf request'
        · exact ih c (Moves.mem_children_of_visits env.settings mode hvisit)
            (hmeets.trans (.there hvisit (.here ..))) hfits'
      | output c =>
        show Alike _ (Render.outputAtoms env (env.child c))
          (Render.outputAtoms env (env.child (c.relabel id)))
        rw [Node.relabel_id]
        exact alike_of_gives (gives_settled_output c)
      | assignment node' left =>
        obtain ⟨rfl, hform⟩ := hcovered
        show Alike _ (Render.declaringAtoms env node' (env.child left))
          (Render.declaringAtoms env node' (env.child (left.relabel id)))
        rw [Node.relabel_id]
        exact alike_of_gives
          (gives_settled_assignment left fun slot => hlead left slot rfl ⟨rfl, hform⟩)
      | mention node' name => exact .base ⟨rfl, settled_mention node' name⟩
      | note n => exact trivial
    by_cases hdeclares : form.Leads node node ∧ ∃ slot, env.analysis.Joins node slot
    · obtain ⟨⟨-, op, left, right, ty, m, rfl, hop⟩, slot, hjoins⟩ := hdeclares
      obtain rfl := position_of_joins hanalysis hnodup hmeets hjoins
      have hrequest := request_of_fits hfits
      have hpieces : Arrangement.ofForm env node (.binary op left right ty m) request =
          Arrangement.assignment node op left right := by
        rcases hrequest with rfl | rfl <;> exact if_pos hop
      rw [hpieces] at hpiece
      have hboth : (env.settling hcustom root).AgreesOn (Arrangement.values
          (if op == .powerAssign || op.checkedOperator?.isSome then [left, left, right]
            else [left, right])) := by
        refine fun p hp => hpiece p (List.mem_cons_of_mem _ hp) fun left slot heq => ?_
        obtain ⟨step, hstep, hp⟩ := List.mem_flatMap.mp hp
        obtain ⟨e, -, rfl⟩ := List.mem_map.mp hstep
        cases heq ▸ List.mem_singleton.mp hp
      obtain ⟨hleft, hright⟩ := Twins.agreesOn_assignment hboth
      have hline : Alike (env.settling hcustom root).Line
          ((env.renderer (.mk node (.binary op left right ty m))).inPosition .statement)
          ((env.renderer (.mk node (.binary op left right ty m))).inPosition .statement) :=
        fun declared => ⟨⟨⟨rfl, rfl, rfl, rfl, rfl⟩, .base ⟨rfl,
          settled_assignment hcustom hop ty m hmeets.mem_nodes hjoins hleft hright declared⟩⟩, rfl⟩
      rw [Node.relabel_id]
      rcases hrequest with rfl | rfl
      · exact hline
      · have hbody := hline.last fun d d' hd => hd.terminated
        rw [Env.renderer_mk] at hbody ⊢
        exact hbody
    · refine Twins.made_ofForm hlookups ?_ fun p hp => hpiece p hp fun left slot _ hlead hjoins =>
        hdeclares ⟨hlead, slot, hjoins⟩
      rintro returns rfl locals es ty rfl
      obtain ⟨test, ifTrue, ifFalse, ty, hform, -⟩ := hfits
      cases hform

end Tree

/-- **A body declares its joined variables in statements.** -/
theorem settled_body {mode : AnalysisMode} (hcustom : env.settings.custom = []) {returns : Bool}
    (hanalysis : env.analysis = Visit.run env.settings mode root (Position.ofBody returns))
    (hnodup : root.labels.Nodup) (hserves : env.Serves mode root (Position.ofBody returns))
    (hchains : root.chainsFit = true) :
    Gives (env.body root returns) fun d => env.Settled root (newline ++ d.atoms) := by
  intro declared
  have hmade := made_of_meets hcustom hanalysis hnodup hserves hchains root (.here ..) fits_body
  exact settled_of_matches (hmade declared).1.atoms

/-- **An expression on its own declares its joined variables in statements.** -/
theorem settled_ofExpr (settings : Settings) (hcustom : settings.custom = []) (e : Expr)
    (hnodup : e.labels.Nodup) (hchains : e.chainsFit = true) :
    (Env.ofExpr settings e).Settled e (newline ++ (Doc.ofExpr settings e).atoms) := by
  have hserves (position : Position) : (Env.ofExpr settings e).Serves .expression e position :=
    fun _ _ _ _ _ _ hmode => nomatch hmode
  unfold Doc.ofExpr Env.root
  split
  next hstatements =>
    refine settled_body hcustom ?_ hnodup (hserves _) hchains []
    simp [Env.ofExpr, Analysis.ofExpression, hstatements, Position.ofBody]
  next hvalue =>
    have hanalysis : (Env.ofExpr settings e).analysis = Visit.run settings .expression e .value := by
      simp [Env.ofExpr, Analysis.ofExpression, hvalue]
    have hmade := made_of_meets hcustom hanalysis hnodup (hserves _) hchains e (.here ..)
      (show Fits True .value e (.inPosition .value) from .inl rfl)
    exact settled_of_matches (hmade []).1.body.atoms

end Env

/-! ### Lists of declarations -/

/-- **A variable that is declared with an assignment is in no list of declarations.** -/
theorem Visit.not_mem_blockDeclarations {settings : Settings} {mode : AnalysisMode} {e : Expr}
    {position : Position} {slot : Slot} {v : VariableInfo}
    (hv : (run settings mode e position).scopes.info? slot = some v)
    (hjoined : v.declaration = .joinedAssignment) {node : Nat}
    (hnode : (run settings mode e position).blockScopes.lookup node = some slot.scope) :
    v.key ∉ (run settings mode e position).blockDeclarations node := by
  intro hmem
  obtain ⟨s, hs, hlocal⟩ := Option.bind_eq_some_iff.mp hv
  unfold Analysis.blockDeclarations at hmem
  rw [hnode, Option.bind_some, hs] at hmem
  obtain ⟨w, hw, hkey⟩ := List.mem_map.mp hmem
  obtain ⟨hw, hlisted⟩ := List.mem_filter.mp hw
  obtain ⟨j, hj⟩ := List.mem_iff_getElem?.mp hw
  have hinfo : (run settings mode e position).scopes.info? ⟨slot.scope, j⟩ = some w :=
    Option.bind_eq_some_iff.mpr ⟨s, hs, hj⟩
  obtain rfl : j = slot.index := uniqueKeys_run.index_eq hinfo hv hkey
  cases hinfo.symm.trans hv
  simp [hjoined] at hlisted

end TreeScribe
