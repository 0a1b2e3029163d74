import Mathlib.Data.Nat.Pairing
import TreeScribe.Proofs.Analysis.Relabel
import TreeScribe.Proofs.Render.Lookups
import TreeScribe.Proofs.Tree.Pairing

/-! Rendering and shared nodes.

Two graphs of the same structure may share different nodes. They are rendered alike as long as neither
shares a node for which results are kept (`Rendered.ofExpr_eq_of_erase`). -/
namespace TreeScribe

/-! ### Lookups under other labels -/

theorem lookup_relabel {β : Type} {g : Nat → Nat} {a : Nat} {l : List (Nat × β)}
    (h : ∀ p ∈ l, g p.1 = g a → p.1 = a) : (l.map (Prod.map g id)).lookup (g a) = l.lookup a := by
  induction l with
  | nil => rfl
  | cons p l ih =>
    obtain ⟨k, b⟩ := p
    have hrest := ih fun p hp => h p (List.mem_cons_of_mem _ hp)
    show List.lookup (g a) ((g k, b) :: l.map (Prod.map g id)) = _
    rw [List.lookup_cons, List.lookup_cons, hrest]
    by_cases heq : a = k
    · rw [heq, beq_self_eq_true, beq_self_eq_true]
    · have hne : g a ≠ g k := fun hg => heq (h (k, b) (List.mem_cons_self ..) hg.symm).symm
      rw [beq_eq_false_iff_ne.mpr heq, beq_eq_false_iff_ne.mpr hne]

namespace Analysis

variable {g : Nat → Nat} {among : Keyed → Nat → Prop} {a : Analysis} {node : Nat}

theorem isUsedIn_relabel (scope : Option Nat) (v : Variable) :
    (a.relabel g).isUsedIn scope v = a.isUsedIn scope v := by
  unfold isUsedIn
  cases scope with
  | none => rfl
  | some i =>
    have hscopes : (a.relabel g).scopes = a.scopes.relabel g := rfl
    rw [hscopes, Option.bind_some, ScopeTree.scope?_relabel, Option.bind_some]
    cases a.scopes.scope? i with
    | none => rfl
    | some s => exact List.any_map

theorem blockDeclarations_relabel (hkept : a.KeptUnder among)
    (hinjective : ∀ k, among .block k → g k = g node → k = node) :
    (a.relabel g).blockDeclarations (g node) = a.blockDeclarations node := by
  have hlookup : (a.relabel g).blockScopes.lookup (g node) = a.blockScopes.lookup node :=
    lookup_relabel fun p hp => hinjective p.1 (hkept.block p hp)
  unfold blockDeclarations
  rw [hlookup]
  cases a.blockScopes.lookup node with
  | none => rfl
  | some i =>
    have hscopes : (a.relabel g).scopes = a.scopes.relabel g := rfl
    rw [hscopes, Option.bind_some, ScopeTree.scope?_relabel, Option.bind_some]
    cases a.scopes.scope? i with
    | none => rfl
    | some s =>
      show (((s.locals.map (VariableInfo.relabel g)).filter _).map _) = _
      rw [List.filter_map, List.map_map]
      rfl

theorem isParameterUsed_relabel (hkept : a.KeptUnder among)
    (hinjective : ∀ k, among .lambda k → g k = g node → k = node) (v : Variable) :
    (a.relabel g).isParameterUsed (g node) v = a.isParameterUsed node v := by
  have hlookup : (a.relabel g).lambdaScopes.lookup (g node) = a.lambdaScopes.lookup node :=
    lookup_relabel fun p hp => hinjective p.1 (hkept.lambda p hp)
  rw [isParameterUsed, isParameterUsed, hlookup, isUsedIn_relabel]

theorem isCaughtUsed_relabel (hkept : a.KeptUnder among)
    (hinjective : ∀ k, among .handler k → g k = g node → k = node) (v : Variable) :
    (a.relabel g).isCaughtUsed (g node) v = a.isCaughtUsed node v := by
  have hlookup : (a.relabel g).handlerScopes.lookup (g node) = a.handlerScopes.lookup node :=
    lookup_relabel fun p hp => hinjective p.1 (hkept.handler p hp)
  rw [isCaughtUsed, isCaughtUsed, hlookup, isUsedIn_relabel]

theorem target?_relabel (hkept : a.KeptUnder among)
    (hinjective : ∀ k, among .target k → g k = g node → k = node) :
    (a.relabel g).target? (g node) = a.target? node :=
  lookup_relabel fun p hp => hinjective p.1 (hkept.target p hp)

theorem isTypedJoin_relabel (h : (a.relabel g).target? (g node) = a.target? node) :
    (a.relabel g).isTypedJoin (g node) = a.isTypedJoin node := by
  unfold isTypedJoin
  rw [h]
  rfl

theorem declaresOutput_relabel (t : ScopeTree) (slot : Slot) :
    (t.relabel g).declaresOutput slot = t.declaresOutput slot := by
  unfold ScopeTree.declaresOutput
  rw [ScopeTree.info?_relabel, Option.any_map]
  rfl

theorem mem_of_target? {slot : Slot} (hkept : a.KeptUnder among) (h : a.target? node = some slot) :
    among .target node :=
  hkept.target (node, slot) (mem_of_lookup h)

/-- The same assignment declares the variable. -/
theorem declaresAssignment_relabel (hkept : a.KeptUnder among)
    (hinjective : ∀ k l, among .target k → among .target l → g k = g l → k = l) {slot : Slot}
    (h : a.target? node = some slot) :
    (a.relabel g).scopes.declaresAssignment slot (g node) = a.scopes.declaresAssignment slot node := by
  unfold ScopeTree.declaresAssignment
  rw [Visit.joined_relabel hinjective hkept (mem_of_target? hkept h)]

end Analysis

/-- Only nodes of a tree are asked for. -/
theorem Env.Asks.mem_nodes {env : Env} {e x : Expr} {request asked : Mode} (h : env.Asks e request x asked) :
    x ∈ e.nodes := by
  induction h with
  | here e request => exact e.mem_nodes_self
  | @there e c x request request' asked hpiece _ ih =>
    obtain ⟨node, form⟩ := e
    exact Node.mem_nodes_of_mem
      (Arrangement.children_ofForm env node form request (Arrangement.mem_children_of_piece hpiece)) ih

/-! ### Rendering under other labels -/

section Relabelled

variable {settings : Settings} {g : Nat → Nat} {e : Expr}
  (hinjective : ∀ kind, ∀ a ∈ e.keys kind, ∀ b ∈ e.keys kind, g a = g b → a = b)

include hinjective in
theorem Analysis.ofExpression_relabel (settings : Settings) :
    ofExpression settings (e.relabel g) = (ofExpression settings e).relabel g ∧
      (ofExpression settings e).KeptUnder fun kind k => k ∈ e.keys kind := by
  unfold ofExpression
  rw [Node.rendersAsStatements_relabel]
  exact Visit.run_relabel settings .expression (hinjective .target) _

/-- A tree as the twin of itself, under other labels. -/
def Twins.relabelled (hcustom : settings.custom = []) (g : Nat → Nat) (e : Expr) : Twins where
  settings := settings
  analysis := Analysis.ofExpression settings e
  other := (Analysis.ofExpression settings e).relabel g
  calls := []
  label := g
  base := Atoms.SameMark
  custom := hcustom
  isJumpTarget := fun _ => rfl
  outline := fun _ _ h => h.outline

variable (hcustom : settings.custom = []) (hgraph : (e.relabel g).IsGraph)

include hinjective hgraph

/-- A node that is looked up under its label shares it with no other result. -/
theorem eq_of_target {x : Expr} (hx : x ∈ e.nodes)
    (hform : x.asParameter?.isSome → x.label ∈ e.keys .target) {k : Nat} (hk : k ∈ e.keys .target)
    (heq : g k = g x.label) : k = x.label := by
  obtain ⟨y, hy, rfl, hkey⟩ := Node.exists_of_mem_keys hk
  have hsame : y.relabel g = x.relabel g := by
    refine hgraph _ ?_ _ ?_ (by rw [Node.label_relabel, Node.label_relabel, heq])
    · rw [Node.nodes_relabel]
      exact List.mem_map_of_mem hy
    · rw [Node.nodes_relabel]
      exact List.mem_map_of_mem hx
  suffices hmem : x.label ∈ e.keys .target from hinjective .target _ hk _ hmem heq
  rcases hkey with hstore | hparameter
  · refine Node.keys_of_isStore hx ?_
    rw [← Form.isStore_relabel g, ← Node.form_relabel, ← hsame, Node.form_relabel, Form.isStore_relabel]
    exact hstore
  · refine hform ?_
    rw [← Node.asParameter?_relabel g x, ← hsame, Node.asParameter?_relabel]
    exact hparameter

/-- Whatever is looked up for a node is the same under other labels. -/
theorem sameAt_relabelled {x : Expr} (hx : x ∈ e.nodes) {asked : Mode}
    (hchained : ∀ returns, asked = .chained returns → ∀ locals es ty, x.form ≠ .block locals es ty) :
    (Twins.relabelled hcustom g e).SameAt x asked := by
  obtain ⟨-, hkept⟩ := Analysis.ofExpression_relabel hinjective settings
  obtain ⟨node, form⟩ := x
  have hkey {kind : Keyed} {k : Nat} (hk : k ∈ form.keys node kind) : k ∈ e.keys kind :=
    List.mem_flatMap.mpr ⟨_, hx, hk⟩
  have htarget {y : Expr} (hy : y ∈ e.nodes) (hform : y.asParameter?.isSome → y.label ∈ e.keys .target) :
      ∀ k ∈ e.keys .target, g k = g y.label → k = y.label :=
    fun k hk => eq_of_target hinjective hgraph hy hform hk
  refine ⟨?_, ?_, hchained⟩
  · show (Twins.relabelled hcustom g e).SameLookups node form
    cases form with
    | block locals es ty =>
      have hnode : node ∈ e.keys .block := hkey (List.mem_singleton_self node)
      exact ⟨Analysis.blockDeclarations_relabel hkept fun k hk => hinjective .block k hk node hnode, rfl⟩
    | lambda name parameters lambdaBody returnType ty =>
      have hnode : node ∈ e.keys .lambda := hkey (List.mem_singleton_self node)
      exact fun v _ => Analysis.isParameterUsed_relabel hkept
        (fun k hk => hinjective .lambda k hk node hnode) v
    | «try» tried handlers cleanup fault ty =>
      intro h hh v _
      have hnode : h.body.label ∈ e.keys .handler := hkey (List.mem_map_of_mem hh)
      exact Analysis.isCaughtUsed_relabel hkept (fun k hk => hinjective .handler k hk _ hnode) v
    | _ => exact trivial
  · intro p hp
    have hspecial (h : p.isPlain = false) := Arrangement.special_ofForm _ node form asked p
      (Arrangement.mem_special.mpr ⟨hp, h⟩)
    cases p with
    | output c =>
      obtain ⟨_, _, _, _, _, -, heq⟩ | ⟨c', hc, heq, hmem⟩ | ⟨-, hedge⟩ |
        ⟨_, -, hlabel⟩ := hspecial rfl
      · cases heq
      · cases heq
        have hcmem : c ∈ e.nodes := Node.mem_nodes_trans (Node.mem_nodes_of_mem hc c.mem_nodes_self) hx
        have hsame := Analysis.target?_relabel (g := g) hkept (htarget hcmem fun hv => hkey (hmem hv))
        exact ⟨hsame, fun slot _ => Analysis.declaresOutput_relabel _ slot⟩
      · simp [Arrangement.edges] at hedge
      · cases hlabel
    | assignment n left =>
      obtain ⟨left', right, ty, m, op, rfl, heq⟩ | ⟨_, _, heq, -⟩ | ⟨-, hedge⟩ |
        ⟨_, -, hlabel⟩ := hspecial rfl
      · cases heq
        have hsame := Analysis.target?_relabel (g := g) hkept (htarget hx nofun)
        refine ⟨hsame, Analysis.isTypedJoin_relabel hsame, fun slot hslot => ?_⟩
        exact Analysis.declaresAssignment_relabel hkept (fun k l hk hl => hinjective .target k hk l hl) hslot
      · cases heq
      · simp [Arrangement.edges] at hedge
      · cases hlabel
    | _ => exact trivial

include hcustom

/-- **A tree is rendered alike under other labels.** -/
theorem Rendered.ofExpr_relabel : ofExpr settings (e.relabel g) = ofExpr settings e := by
  obtain ⟨hanalysis, -⟩ := Analysis.ofExpression_relabel hinjective settings
  have hserves (position : Position) : (Env.ofExpr settings e).Serves .expression e position :=
    fun _ _ _ _ _ _ hmode => nomatch hmode
  have hfits : ∃ position, Fits False position e (Env.rootMode e) := by
    unfold Env.rootMode
    split
    · exact ⟨.statement, trivial⟩
    · exact ⟨.value, .inl rfl⟩
  have hsame : ∀ x asked, (Env.ofExpr settings e).Asks e (Env.rootMode e) x asked →
      (Twins.relabelled hcustom g e).SameAt x asked := by
    intro x asked hasks
    refine sameAt_relabelled hinjective hcustom hgraph hasks.mem_nodes ?_
    rintro returns rfl locals es ty hblock
    obtain ⟨position, hfits⟩ := hfits
    obtain hleaf | ⟨q, -, test, ifTrue, ifFalse, ty', hform, -⟩ :=
      Env.meets_of_asks hasks (hserves position) nofun hfits
    · rw [Node.isLeaf, hblock] at hleaf
      cases hleaf
    · rw [hblock] at hform
      cases hform
  have hbare : (Doc.ofExpr settings e).atoms.bare = (Doc.ofExpr settings (e.relabel g)).atoms.bare := by
    have htwin : (Twins.relabelled hcustom g e).twin = Env.ofExpr settings (e.relabel g) := by
      unfold Env.ofExpr
      rw [hanalysis]
      rfl
    have hroot := Twins.bare_root (T := Twins.relabelled hcustom g e) rfl hsame
    rw [htwin] at hroot
    exact hroot
  have hwritten : (Doc.ofExpr settings (e.relabel g)).written settings.format settings.indent =
      (Doc.ofExpr settings e).written settings.format settings.indent := by
    rw [Doc.written, Doc.written, ← Atoms.write_bare, ← hbare, Atoms.write_bare]
  unfold ofExpr ofDoc
  rw [hanalysis, hwritten]
  rfl

end Relabelled

/-- **Rendering does not depend on what is shared**: two graphs that are the same without their labels
are rendered alike, as long as no node for which results are kept is reached in two ways in either. -/
theorem Rendered.ofExpr_eq_of_erase (settings : Settings) (hcustom : settings.custom = []) {e e' : Expr}
    (hsame : e.erase = e'.erase) (hgraph : e.IsGraph) (hgraph' : e'.IsGraph) (hapart : e.KeepsApart)
    (hapart' : e'.KeepsApart) : ofExpr settings e = ofExpr settings e' := by
  obtain ⟨p, hfst, hsnd⟩ := Node.exists_pairing hsame
  -- the tree with both labels at each node
  let both : Expr := p.relabel fun l => Nat.pair l.1 l.2
  have hleft : both.relabel (fun l => l.unpair.1) = e := by
    rw [Node.relabel_relabel, ← hfst]
    exact congrArg (p.relabel ·) (funext fun l => by simp)
  have hright : both.relabel (fun l => l.unpair.2) = e' := by
    rw [Node.relabel_relabel, ← hsnd]
    exact congrArg (p.relabel ·) (funext fun l => by simp)
  have hinjective {g : Nat → Nat} (h : (both.relabel g).KeepsApart) (kind : Keyed) :
      ∀ a ∈ both.keys kind, ∀ b ∈ both.keys kind, g a = g b → a = b := by
    have hnodup := h kind
    rw [Node.keys_relabel] at hnodup
    exact List.inj_on_of_nodup_map hnodup
  rw [← hleft] at hgraph hapart
  rw [← hright] at hgraph' hapart'
  calc
    ofExpr settings e = ofExpr settings both := by
      rw [← hleft, ofExpr_relabel (hinjective hapart) hcustom hgraph]
    _ = ofExpr settings e' := by
      rw [← hright, ofExpr_relabel (hinjective hapart') hcustom hgraph']

/-- `x = x`, where the variable is one node or two. -/
def selfAssignment (left right : Nat) : Expr :=
  let x : Form Expr := .parameter { name := "x", ty := .int }
  .mk 0 (.binary .assign (.mk left x) (.mk right x) .int none)

theorem isGraph_selfAssignment {left right : Nat} (hleft : left ≠ 0) (hright : right ≠ 0) :
    (selfAssignment left right).IsGraph := by
  intro y hy z hz hlabel
  simp only [selfAssignment, Node.nodes_mk, Form.children, List.flatMap_cons, List.flatMap_nil,
    List.cons_append, List.nil_append, List.mem_cons, List.not_mem_nil, or_false] at hy hz
  rcases hy with rfl | rfl | rfl <;> rcases hz with rfl | rfl | rfl <;>
    simp_all [Node.label, eq_comm]

theorem keepsApart_selfAssignment (left right : Nat) : (selfAssignment left right).KeepsApart := by
  intro kind
  have hkeys : (selfAssignment left right).keys kind = if kind = .target then [0] else [] := by
    simp only [selfAssignment, Node.keys_mk, Form.children, List.flatMap_cons, List.flatMap_nil]
    cases kind <;> rfl
  rw [hkeys]
  cases kind <;> decide

theorem Rendered.ofExpr_selfAssignment :
    (selfAssignment 1 1).erase = (selfAssignment 1 2).erase ∧
      (ofExpr {} (selfAssignment 1 2)).text = "x = x" ∧
      ofExpr {} (selfAssignment 1 1) = ofExpr {} (selfAssignment 1 2) := by
  have hsame : (selfAssignment 1 1).erase = (selfAssignment 1 2).erase := by
    simp only [selfAssignment, Node.erase_eq_relabel, Node.relabel_mk, Form.map]
  refine ⟨hsame, by decide +kernel, ?_⟩
  exact ofExpr_eq_of_erase {} rfl hsame (isGraph_selfAssignment (by decide) (by decide))
    (isGraph_selfAssignment (by decide) (by decide)) (keepsApart_selfAssignment 1 1)
    (keepsApart_selfAssignment 1 2)

end TreeScribe
