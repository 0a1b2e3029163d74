import TreeScribe.Proofs.Analysis.Noted
import TreeScribe.Proofs.Analysis.Reach
import TreeScribe.Proofs.Analysis.Targets
import TreeScribe.Proofs.Render.Laid

/-! The namespaces that a text needs.

Every type that is named in the text is named by a node that the visit met, and what a node spells out
or declares with its type the visit has noted. So the namespaces that the names need are all imported,
but for the types of `Form.unnoted`, which nothing notes (`Doc.imported_ofExpr`). -/
namespace TreeScribe

open Moves

/-! ### Required namespaces -/

/-- What is imported covers all that adding the type would record. -/
theorem Analysis.Imports.subset {a : Analysis} {t : TypeRef} (h : a.Imports t) :
    (({} : NamespaceSet).addType t).spaces ⊆ a.requiredNamespaces := by
  intro space hspace
  rcases NamespaceSet.addAll_subset {} _ hspace with hspace | ⟨hspace, hnamed⟩
  · cases hspace
  · exact mem_sortNamespaces.mpr (h space hspace hnamed)

/-! ### Types of declarations -/

namespace ScopeTree

theorem mem_locals {t : ScopeTree} {slot : Slot} {v : VariableInfo} (h : t.info? slot = some v) :
    (slot, v) ∈ t.locals := by
  obtain ⟨s, hs, hv⟩ := Option.bind_eq_some_iff.mp h
  refine List.mem_flatMap.mpr ⟨(s, slot.scope), List.mem_zipIdx_iff_getElem?.mpr hs, ?_⟩
  exact List.mem_map.mpr ⟨(v, slot.index), List.mem_zipIdx_iff_getElem?.mpr hv, rfl⟩

end ScopeTree

namespace Visit

variable {settings : Settings} {a : Analysis} {slot : Slot} {v : VariableInfo}

/-- The declaration of the variable writes its type. -/
def writesType (settings : Settings) (a : Analysis) (slot : Slot) (v : VariableInfo) : Bool :=
  match v.declaration with
  | .inList => v.isUsed
  | .joinedAssignment => settings.choice .explicitTypes || a.typedJoins.contains slot
  | .inlineOutput => settings.choice .explicitTypes
  | .undeclared => false

theorem mem_declaredTypes (hv : a.scopes.info? slot = some v) (h : writesType settings a slot v = true) :
    v.key.ty ∈ declaredTypes settings a := by
  refine List.mem_filterMap.mpr ⟨(slot, v), ScopeTree.mem_locals hv, ?_⟩
  show (if writesType settings a slot v then some v.key.ty else none) = some v.key.ty
  rw [if_pos h]

variable {mode : AnalysisMode} {e : Expr} {position : Position}

/-- The types that declarations write are noted at the end. -/
theorem imports_declaredTypes (hqualify : settings.choice .qualifyTypes = false) {t : TypeRef}
    (ht : t ∈ declaredTypes settings (run settings mode e position)) :
    (run settings mode e position).Imports t := by
  have hsame : declaredTypes settings (run settings mode e position) =
      declaredTypes settings ((tree settings e position).after (.start mode)).analysis := by
    obtain ⟨namespaces, hrun⟩ := run_eq settings mode e position
    rw [hrun]
    rfl
  rw [hsame] at ht
  rw [after_run]
  exact recorded_notes ht _ hqualify

end Visit

namespace Named

variable {mode : AnalysisMode} {position : Position} {root : Expr} {env : Env} {t : TypeRef}

/-- The types of the variables that a block declares. -/
theorem block_declared {node : Nat} (h : t ∈ (env.analysis.blockDeclarations node).map (·.ty)) :
    t ∈ Visit.declaredTypes env.settings env.analysis := by
  obtain ⟨key, hkey, rfl⟩ := List.mem_map.mp h
  unfold Analysis.blockDeclarations at hkey
  split at hkey
  next s hs =>
    obtain ⟨v, hv, rfl⟩ := List.mem_map.mp hkey
    obtain ⟨hmem, hlisted⟩ := List.mem_filter.mp hv
    obtain ⟨scope, -, hscope⟩ := Option.bind_eq_some_iff.mp hs
    obtain ⟨index, hindex⟩ := List.mem_iff_getElem?.mp hmem
    simp only [Bool.and_eq_true, beq_iff_eq] at hlisted
    have hinfo : env.analysis.scopes.info? ⟨scope, index⟩ = some v :=
      Option.bind_eq_some_iff.mpr ⟨s, hscope, hindex⟩
    refine Visit.mem_declaredTypes hinfo ?_
    rw [Visit.writesType, hlisted.1]
    exact hlisted.2
  · cases hkey

variable (hanalysis : env.analysis = Visit.run env.settings mode root position) (hgraph : root.IsGraph)

include hanalysis hgraph

/-- In a graph a slot that is recorded for a node holds the variable of that node. -/
theorem key_target {x : Expr} (hx : x ∈ root.nodes) {slot : Slot}
    (htarget : env.analysis.target? x.label = some slot) {v : VariableInfo}
    (hv : env.analysis.scopes.info? slot = some v) {w : Variable} (hw : x.form.stored? = some w) :
    v.key = w.key := by
  rw [hanalysis] at htarget hv
  obtain ⟨w', ⟨y, hy, hlabel, hstored⟩, v', hv', hkey⟩ := Visit.holds_target htarget
  obtain rfl := hgraph y hy x hx hlabel
  obtain rfl := Option.some.inj (hv'.symm.trans hv)
  obtain rfl := Option.some.inj (hstored.symm.trans hw)
  exact hkey

/-- An assignment that declares its variable with the type names the type of its variable. -/
theorem join_declared {node : Nat} {op : BinaryOp} {left right : Expr} {ty : TypeRef}
    {m : Option MethodInfo} (hx : Node.mk node (.binary op left right ty m) ∈ root.nodes)
    (h : t ∈ join env node left.ty) : t ∈ Visit.declaredTypes env.settings env.analysis := by
  unfold join at h
  split at h
  next hjoin =>
    obtain rfl := List.mem_singleton.mp h
    simp only [Bool.and_eq_true, Option.any_eq_true, beq_iff_eq, Analysis.isTypedJoin] at hjoin
    obtain ⟨⟨slot, htarget, htyped⟩, slot', htarget', v, hv, hjoined⟩ := hjoin
    obtain rfl := Option.some.inj (htarget.symm.trans htarget')
    have hdeclaration : v.declaration = .joinedAssignment := by
      unfold VariableInfo.joined? at hjoined
      split at hjoined
      next hd => exact hd
      · cases hjoined
    -- the target is a variable, as a slot was recorded for the assignment
    have hstores : ∃ w, left.asParameter? = some w := by
      rw [hanalysis] at htarget
      obtain ⟨w, ⟨y, hy, hlabel, hstored⟩, -⟩ := Visit.holds_target htarget
      obtain rfl := hgraph y hy _ hx hlabel
      exact ⟨w, hstored⟩
    obtain ⟨w, hw⟩ := hstores
    have hkey := key_target hanalysis hgraph hx htarget hv hw
    have hty : v.key.ty = left.ty := by
      obtain ⟨l, f⟩ := left
      cases f with
      | parameter w' =>
        obtain rfl := Option.some.inj hw
        rw [hkey]
        rfl
      | _ => cases hw
    rw [← hty]
    refine Visit.mem_declaredTypes hv ?_
    rw [Visit.writesType, hdeclaration]
    dsimp only
    rw [htyped, Bool.or_true]
  · cases h

theorem output_declared {e : Expr} (he : e ∈ root.nodes) (h : t ∈ output env e) :
    t ∈ Visit.declaredTypes env.settings env.analysis := by
  unfold output at h
  split at h
  next houtput =>
    simp only [Bool.and_eq_true, Option.any_eq_true, beq_iff_eq] at houtput
    obtain ⟨hexplicit, slot, htarget, v, hv, hinline⟩ := houtput
    obtain ⟨w, hw, rfl⟩ : ∃ w, e.asParameter? = some w ∧ w.ty = t := by simpa using h
    have hkey := key_target hanalysis hgraph he htarget hv (Node.stored?_of_asParameter? hw)
    have hty : v.key.ty = w.ty := by rw [hkey]; rfl
    rw [← hty]
    refine Visit.mem_declaredTypes hv ?_
    rw [Visit.writesType, hinline]
    exact hexplicit
  · cases h

theorem outputs_declared {es : List Expr} (hes : es ⊆ root.nodes) (h : t ∈ outputs env es) :
    t ∈ Visit.declaredTypes env.settings env.analysis := by
  obtain ⟨e, he, h⟩ := List.mem_flatMap.mp h
  exact output_declared hanalysis hgraph (hes he) h

end Named

/-- **The types of the declarations of a node are noted at the end.** -/
theorem Form.declared_subset {mode : AnalysisMode} {position : Position} {root : Expr} {env : Env}
    (hanalysis : env.analysis = Visit.run env.settings mode root position) (hgraph : root.IsGraph)
    {x : Expr} (hx : x ∈ root.nodes) :
    x.form.declared env x.label ⊆ Visit.declaredTypes env.settings env.analysis := by
  obtain ⟨node, form⟩ := x
  intro t ht
  have hchildren : form.children ⊆ root.nodes := fun c hc =>
    Node.mem_nodes_trans (Node.mem_nodes_of_mem hc c.mem_nodes_self) hx
  have houtputs {es : List Expr} (hes : es ⊆ form.children) (ht : t ∈ Named.outputs env es) :=
    Named.outputs_declared hanalysis hgraph (fun e he => hchildren (hes he)) ht
  cases form with
  | binary op left right ty m => exact Named.join_declared hanalysis hgraph hx ht
  | block locals es ty => exact Named.block_declared ht
  | call receiver m args => exact houtputs (List.subset_append_right ..) ht
  | invoke target args ty => exact houtputs (List.subset_cons_self ..) ht
  | new creation => exact houtputs (List.Subset.refl _) ht
  | memberInit creation bindings => exact houtputs (List.subset_append_left ..) ht
  | listInit creation items => exact houtputs (List.subset_append_left ..) ht
  | _ => cases ht

/-! ### Types of an expression -/

section Imported

variable {settings : Settings} (hqualify : settings.choice .qualifyTypes = false) {e : Expr}
  (hgraph : e.IsGraph) (hstatic : ∀ x ∈ e.nodes, x.form.isStatic = true)

include hqualify hstatic

/-- What a node that was met spells out is imported, or nothing notes it. -/
theorem Form.spelled_imported {mode : AnalysisMode} {position q : Position} {x : Expr}
    (hmeets : Visit.Meets settings mode e position x q) {t : TypeRef} (ht : t ∈ x.form.spelled settings) :
    (Visit.run settings mode e position).Imports t ∨ ∃ x ∈ e.nodes, t ∈ x.form.unnoted settings := by
  obtain ⟨node, form⟩ := x
  have hx := hmeets.mem_nodes
  rcases notes_ofForm mode node (hstatic _ hx) ht q with hunnoted | hnotes
  · exact .inr ⟨_, hx, hunnoted⟩
  · refine .inl fun space hspace hnamed => ?_
    obtain ⟨t', hnote, hneeds⟩ := hnotes space hspace
    exact Visit.recorded_of_meets hmeets hnote hqualify space hneeds hnamed

include hgraph

/-- **The namespaces that are required cover every type whose name is written**, unless it is the type
of a constant or a captured variable that is written by its name, or of a static call of an operator. -/
theorem Doc.imported_ofExpr {t : TypeRef} (ht : .note (.typeName t) ∈ (Doc.ofExpr settings e).atoms) :
    (({} : NamespaceSet).addType t).spaces ⊆ (Analysis.ofExpression settings e).requiredNamespaces ∨
      ∃ x ∈ e.nodes, t ∈ x.form.unnoted settings := by
  let position : Position := if e.rendersAsStatements then .statement else .value
  let analysis := Visit.run settings .expression e position
  let Known (t : TypeRef) : Prop := analysis.Imports t ∨ ∃ x ∈ e.nodes, t ∈ x.form.unnoted settings
  -- a node that is written was met, or names nothing
  let Met (x : Expr) : Prop :=
    x ∈ e.nodes ∧ (x.isQuiet = true ∨ ∃ q, Visit.Meets settings .expression e position x q)
  have hspelled : ∀ x, Met x → ∀ t ∈ x.form.spelled settings, Known t := by
    rintro x ⟨-, hquiet | ⟨q, hmeets⟩⟩ t ht
    · rw [Node.spelled_of_isQuiet hquiet] at ht
      cases ht
    · exact Form.spelled_imported hqualify hstatic hmeets ht
  have hdeclared : ∀ x, Met x → ∀ t ∈ x.form.declared (Env.ofExpr settings e) x.label, Known t := by
    rintro x ⟨hx, -⟩ t ht
    have hanalysis : (Env.ofExpr settings e).analysis = analysis := rfl
    exact .inl (Visit.imports_declaredTypes hqualify (Form.declared_subset hanalysis hgraph hx ht))
  have hwritten : ∀ x, Met x → ∀ c ∈ x.form.written settings Node.isClosure, Met c := by
    rintro ⟨node, form⟩ ⟨hx, hquiet | ⟨q, hmeets⟩⟩ c hc
    · rw [Node.written_of_isQuiet hquiet] at hc
      cases hc
    · have hchild := Form.written_subset settings Node.isClosure form hc
      refine ⟨Node.mem_nodes_trans (Node.mem_nodes_of_mem hchild c.mem_nodes_self) hx, ?_⟩
      refine (reaches_ofForm settings .expression node form q c hc).imp id fun hvisit => ?_
      obtain ⟨⟨_, q'⟩, hmem, rfl⟩ := List.mem_map.mp hvisit
      exact ⟨q', hmeets.trans (.there hmem (.here ..))⟩
  have hlaid := Env.laid_renderer (Env.ofExpr settings e) hspelled hdeclared hwritten
    ⟨e.mem_nodes_self, .inr ⟨position, .here ..⟩⟩
  exact ((Doc.laid_ofExpr hlaid).of_typeName ht).imp Analysis.Imports.subset id

end Imported

/-- A tree without shared nodes is a graph. -/
theorem Node.isGraph_of_nodup {ι : Type} {n : Node ι} (h : n.labels.Nodup) : n.IsGraph := by
  rw [← map_label_nodes] at h
  exact fun x hx y hy hlabel => List.inj_on_of_nodup_map h hx hy hlabel

/-- `typeof(File) == default(Archive)`, where the left side is the value of a captured variable. -/
def capturedType : Expr :=
  let info : MemberInfo :=
    { name := "type", declaring := .closure "Scope", memberType := .typeOfTypes, kind := .field }
  let held : Constant :=
    ⟨.closure [⟨"type", .typeOfTypes, .type (.named .classType "System.IO" "File")⟩], .closure "Scope"⟩
  .mk 0 (.binary .equal (.mk 1 (.member (some (.mk 2 (.constant held))) info))
    (.mk 3 (.default (.named .classType "Demo.Zip" "Archive"))) .bool none)

/-- What the default names is imported; what the captured variable names is not. -/
theorem Doc.imported_capturedType :
    let settings := ({} : Settings).withChoice .capturedValues
    let archive : TypeRef := .named .classType "Demo.Zip" "Archive"
    let file : TypeRef := .named .classType "System.IO" "File"
    (.note (.typeName archive) ∈ (Doc.ofExpr settings capturedType).atoms ∧
      (({} : NamespaceSet).addType archive).spaces ⊆
        (Analysis.ofExpression settings capturedType).requiredNamespaces) ∧
    .note (.typeName file) ∈ (Doc.ofExpr settings capturedType).atoms ∧
      ¬(({} : NamespaceSet).addType file).spaces ⊆
        (Analysis.ofExpression settings capturedType).requiredNamespaces := by
  intro settings archive file
  have hqualify : settings.choice .qualifyTypes = false := by decide
  have hlabels : capturedType.labels.Nodup := by decide +kernel
  have hstatic : ∀ x ∈ capturedType.nodes, x.form.isStatic = true := by
    have hall : capturedType.nodes.all (·.form.isStatic) = true := by decide +kernel
    exact List.all_eq_true.mp hall
  have hnamed : .note (.typeName archive) ∈ (Doc.ofExpr settings capturedType).atoms := by decide +kernel
  refine ⟨⟨hnamed, ?_⟩, ?_, ?_⟩
  · rcases imported_ofExpr hqualify (Node.isGraph_of_nodup hlabels) hstatic hnamed with h | ⟨x, hx, hunnoted⟩
    · exact h
    · have hnone : ∀ x ∈ capturedType.nodes, archive ∉ x.form.unnoted settings := by
        have hall : capturedType.nodes.all (fun x => !(x.form.unnoted settings).contains archive) = true := by
          decide +kernel
        intro x hx
        simpa using List.all_eq_true.mp hall x hx
      exact absurd hunnoted (hnone x hx)
  · decide +kernel
  · decide +kernel

end TreeScribe
