import TreeScribe.Proofs.Analysis.Meets
import TreeScribe.Proofs.Tree.Relabel

/-! The nodes for which results are kept.

Results of an analysis are kept under the labels of some nodes: blocks, lambdas, the bodies of handlers,
and what is assigned to a variable or passed to be written. In a graph, where a label stands for one node,
the kind of a node decides which results are found under its label. -/
namespace TreeScribe

theorem mem_of_lookup {κ β : Type} [BEq κ] [LawfulBEq κ] {entries : List (κ × β)} {key : κ} {b : β}
    (h : entries.lookup key = some b) : (key, b) ∈ entries := by
  obtain ⟨first, rest, rfl, -⟩ := List.lookup_eq_some_iff.mp h
  exact List.mem_append_right _ (List.mem_cons_self ..)

/-- What results are kept for. -/
inductive Keyed where
  | block
  | lambda
  | handler
  /-- An assignment to a variable, or a variable that is passed to be written. -/
  | target
deriving DecidableEq, Repr

/-- The variables among arguments that are passed to be written. -/
def Node.outputs {ι : Type} (args : List (Node ι)) (parameters : List ParameterInfo) : List ι :=
  (args.zip parameters).filterMap fun (e, p) =>
    if p.mode == .out && e.asParameter?.isSome then some e.label else none

/-- A simple assignment to a variable. -/
def Form.isStore {ι : Type} : Form (Node ι) → Bool
  | .binary op left _ _ _ => op == .assign && left.asParameter?.isSome
  | _ => false

/-- The labels under which results are kept for a node. -/
def Form.keys {ι : Type} (node : ι) (form : Form (Node ι)) : Keyed → List ι
  | .block =>
    match form with
    | .block _ _ _ => [node]
    | _ => []
  | .lambda =>
    match form with
    | .lambda _ _ _ _ _ => [node]
    | _ => []
  | .handler =>
    match form with
    | .try _ handlers _ _ _ => handlers.map (·.body.label)
    | _ => []
  | .target =>
    match form with
    | .binary _ _ _ _ _ => if form.isStore then [node] else []
    | .call _ method args => Node.outputs args method.parameters
    | .new creation =>
      Node.outputs creation.arguments ((creation.constructor.map (·.parameters)).getD [])
    | _ => []

/-- The labels under which results are kept for a tree, those of a shared node at each place. -/
def Node.keys {ι : Type} (n : Node ι) (kind : Keyed) : List ι :=
  n.nodes.flatMap fun x => x.form.keys x.label kind

namespace Node

variable {ι κ : Type}

theorem outputs_cons (e : Node ι) (es : List (Node ι)) (p : ParameterInfo) (ps : List ParameterInfo) :
    outputs (e :: es) (p :: ps) =
      (if p.mode == .out && e.asParameter?.isSome then [e.label] else []) ++ outputs es ps := by
  unfold outputs
  rw [List.zip_cons_cons, List.filterMap_cons]
  dsimp only
  cases p.mode == .out && e.asParameter?.isSome <;> rfl

theorem outputs_relabel (g : ι → κ) (args : List (Node ι)) (ps : List ParameterInfo) :
    outputs (args.map (relabel g)) ps = (outputs args ps).map g := by
  unfold outputs
  rw [List.zip_map_left, List.filterMap_map, List.map_filterMap]
  refine congrArg (List.filterMap · _) (funext fun (e, p) => ?_)
  simp only [Function.comp_apply, Prod.map, id, asParameter?_relabel, label_relabel]
  split <;> rfl

end Node

theorem Form.isStore_relabel {ι κ : Type} (g : ι → κ) (form : Form (Node ι)) :
    (form.map (Node.relabel g)).isStore = form.isStore := by
  cases form with
  | binary op left right ty m =>
    show (op == .assign && (left.relabel g).asParameter?.isSome) = _
    rw [Node.asParameter?_relabel]
    rfl
  | _ => rfl

theorem Form.keys_relabel {ι κ : Type} (g : ι → κ) (node : ι) (form : Form (Node ι)) (kind : Keyed) :
    (form.map (Node.relabel g)).keys (g node) kind = (form.keys node kind).map g := by
  cases kind with
  | block => cases form <;> rfl
  | lambda => cases form <;> rfl
  | handler =>
    cases form with
    | «try» tried handlers cleanup fault ty =>
      show (handlers.map (·.map (Node.relabel g))).map (·.body.label) = (handlers.map (·.body.label)).map g
      simp [Handler.map, Function.comp_def]
    | _ => rfl
  | target =>
    cases form with
    | binary op left right ty m =>
      show (if ((Form.binary op left right ty m).map (Node.relabel g)).isStore then [g node] else []) = _
      rw [isStore_relabel]
      unfold keys
      dsimp only
      split <;> rfl
    | call receiver m args => exact Node.outputs_relabel g args m.parameters
    | new creation => exact Node.outputs_relabel g creation.arguments _
    | _ => rfl

namespace Node

variable {ι κ : Type}

theorem keys_mk (l : ι) (f : Form (Node ι)) (kind : Keyed) :
    (mk l f).keys kind = f.keys l kind ++ f.children.flatMap (·.keys kind) := by
  unfold keys
  rw [nodes_mk, List.flatMap_cons, List.flatMap_assoc]
  rfl

theorem keys_subset_of_mem {l : ι} {f : Form (Node ι)} {c : Node ι} (hc : c ∈ f.children) (kind : Keyed) :
    c.keys kind ⊆ (mk l f).keys kind := by
  intro k hk
  rw [keys_mk]
  exact List.mem_append_right _ (List.mem_flatMap.mpr ⟨c, hc, hk⟩)

theorem keys_relabel (g : ι → κ) (n : Node ι) (kind : Keyed) :
    (n.relabel g).keys kind = (n.keys kind).map g := by
  induction n using Node.induction with
  | h l f ih =>
    rw [relabel_mk, keys_mk, keys_mk, Form.keys_relabel, Form.children_map, List.map_append,
      List.map_flatMap, List.flatMap_map, List.flatMap_def, List.flatMap_def, List.map_congr_left ih]

end Node

/-! ### Graphs -/

/-- Two places with the same label hold the same node. -/
def Node.IsGraph {ι : Type} (n : Node ι) : Prop := ∀ x ∈ n.nodes, ∀ y ∈ n.nodes, x.label = y.label → x = y

/-- No node for which results are kept is reached in two ways. -/
def Node.KeepsApart {ι : Type} (n : Node ι) : Prop := ∀ kind, (n.keys kind).Nodup

namespace Node

variable {ι κ : Type}

theorem nodes_relabel (g : ι → κ) (n : Node ι) : (n.relabel g).nodes = n.nodes.map (relabel g) := by
  induction n using Node.induction with
  | h l f ih =>
    rw [relabel_mk, nodes_mk, nodes_mk, List.map_cons, relabel_mk, Form.children_map, List.flatMap_map,
      List.map_flatMap, List.flatMap_def, List.flatMap_def, List.map_congr_left ih]

theorem keys_of_isStore {e x : Node ι} (hx : x ∈ e.nodes) (hstore : x.form.isStore = true) :
    x.label ∈ e.keys .target := by
  obtain ⟨l, f⟩ := x
  refine List.mem_flatMap.mpr ⟨_, hx, ?_⟩
  change f.isStore = true at hstore
  show l ∈ f.keys l .target
  cases f with
  | binary op left right ty m =>
    show l ∈ (if (Form.binary op left right ty m).isStore then [l] else [])
    rw [if_pos hstore]
    exact List.mem_singleton_self l
  | _ => cases hstore

/-- What results are kept for as a target is an assignment to a variable, or a variable. -/
theorem exists_of_mem_keys {e : Node ι} {k : ι} (hk : k ∈ e.keys .target) :
    ∃ x ∈ e.nodes, x.label = k ∧ (x.form.isStore ∨ x.asParameter?.isSome) := by
  have houtputs {x : Node ι} {args : List (Node ι)} {ps : List ParameterInfo} (hx : x ∈ e.nodes)
      (hargs : args ⊆ x.form.children) (hk : k ∈ outputs args ps) :
      ∃ x ∈ e.nodes, x.label = k ∧ (x.form.isStore ∨ x.asParameter?.isSome) := by
    obtain ⟨⟨c, p⟩, hc, hlabel⟩ := List.mem_filterMap.mp hk
    dsimp only at hlabel
    split at hlabel
    next hout =>
      obtain ⟨l, f⟩ := x
      refine ⟨c, mem_nodes_trans (mem_nodes_of_mem (hargs (List.of_mem_zip hc).1) c.mem_nodes_self) hx,
        Option.some.inj hlabel, .inr (Bool.and_eq_true_iff.mp hout).2⟩
    next => cases hlabel
  obtain ⟨⟨l, f⟩, hx, hk⟩ := List.mem_flatMap.mp hk
  cases f with
  | binary op left right ty m =>
    change k ∈ (if (Form.binary op left right ty m).isStore then [l] else []) at hk
    split at hk
    next hstore =>
      obtain rfl := List.mem_singleton.mp hk
      exact ⟨_, hx, rfl, .inl hstore⟩
    next => cases hk
  | call receiver m args => exact houtputs hx (List.subset_append_right ..) hk
  | new creation => exact houtputs hx (List.Subset.refl _) hk
  | _ => cases hk

end Node

end TreeScribe
