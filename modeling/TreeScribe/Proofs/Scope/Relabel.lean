import TreeScribe.Proofs.Scope.History

/-! Scopes under other labels.

A scope tree names nodes in one place only: the assignments that carry declarations. Every operation
does the same to a tree whose nodes have other labels (`ScopeTree.access_relabel`), and names no nodes
but those it is given (`ScopeTree.Names`). -/
namespace TreeScribe

variable (g : Nat → Nat)

def VariableInfo.relabel (v : VariableInfo) : VariableInfo := { v with carrier := v.carrier.map g }

def Scope.relabel (s : Scope) : Scope := { s with locals := s.locals.map (·.relabel g) }

def ScopeTree.relabel (t : ScopeTree) : ScopeTree := ⟨t.scopes.map (·.relabel g)⟩

def Access.relabel : Access → Access
  | .assignment node isStatement => .assignment (g node) isStatement
  | .reference isAssigned => .reference isAssigned
  | .output inline => .output inline

/-- Mapping after a change in one place is the same as a change after mapping. -/
theorem map_modify {α β : Type} {h : α → β} {f : α → α} {f' : β → β} (heq : ∀ a, f' (h a) = h (f a))
    (as : List α) (i : Nat) : (as.map h).modify i f' = (as.modify i f).map h := by
  apply List.ext_getElem?
  intro j
  simp only [List.getElem?_modify, List.getElem?_map]
  cases as[j]? with
  | none => rfl
  | some a => split <;> simp [heq]

theorem forall_mem_modify {α : Type} {P : α → Prop} {f : α → α} (hf : ∀ a, P a → P (f a)) {as : List α}
    (h : ∀ a ∈ as, P a) (i : Nat) : ∀ a ∈ as.modify i f, P a := by
  intro a ha
  obtain ⟨j, hj⟩ := List.mem_iff_getElem?.mp ha
  rw [List.getElem?_modify] at hj
  obtain ⟨b, hb, rfl⟩ := Option.map_eq_some_iff.mp hj
  have hmem := List.mem_of_getElem? hb
  split
  · exact hf b (h b hmem)
  · exact h b hmem

theorem Access.applied_relabel (access : Access) (start : Nat) (escapes : Bool) (isOutside : Nat → Bool)
    (v : VariableInfo) :
    (access.relabel g).applied start escapes isOutside (v.relabel g) =
      (access.applied start escapes isOutside v).relabel g := by
  have hused : (v.relabel g).used isOutside = (v.used isOutside).relabel g := by
    unfold VariableInfo.used
    dsimp only
    rw [apply_ite (VariableInfo.relabel g)]
    rfl
  have hmay : (access.relabel g).mayDeclare = access.mayDeclare := by cases access <;> rfl
  have hdeclaring : (access.relabel g).declaring start (v.relabel g) =
      (access.declaring start v).relabel g := by
    cases access <;> rfl
  rw [applied_eq, applied_eq, hmay, hdeclaring, hused, apply_ite (VariableInfo.relabel g)]
  rfl

namespace ScopeTree

variable (t : ScopeTree)

/-! ### Lookups -/

@[simp] theorem links_relabel : (t.relabel g).links = t.links := by
  simp only [links, relabel, List.map_map]
  rfl

theorem scope?_relabel (i : Nat) : (t.relabel g).scope? i = (t.scope? i).map (Scope.relabel g) :=
  List.getElem?_map ..

@[simp] theorem parent?_relabel (i : Nat) : (t.relabel g).parent? i = t.parent? i := by
  rw [parent?_eq, parent?_eq, links_relabel]

@[simp] theorem isExtracted_relabel (i : Nat) : (t.relabel g).isExtracted i = t.isExtracted i := by
  rw [isExtracted_eq, isExtracted_eq, links_relabel]

@[simp] theorem path_relabel (i : Nat) : (t.relabel g).path i = t.path i := by
  induction i using Nat.strongRecOn with
  | ind i ih =>
    rw [path, path, parent?_relabel]
    split
    · rfl
    next p _ =>
      split
      next hp => rw [ih p hp]
      next => rfl

@[simp] theorem isWithin_relabel (i outer : Nat) : (t.relabel g).isWithin i outer = t.isWithin i outer := by
  rw [isWithin, isWithin, path_relabel]

@[simp] theorem extractedUpTo_relabel (start : Nat) (slot : Slot) :
    (t.relabel g).extractedUpTo start slot = t.extractedUpTo start slot := by
  rw [extractedUpTo, extractedUpTo, path_relabel, show (t.relabel g).isExtracted = t.isExtracted from
    funext fun i => isExtracted_relabel g t i]

@[simp] theorem slotIn?_relabel (i : Nat) (key : VariableKey) :
    (t.relabel g).slotIn? i key = t.slotIn? i key := by
  unfold slotIn?
  rw [scope?_relabel]
  cases t.scope? i with
  | none => rfl
  | some s =>
    have hindex : (s.relabel g).indexOf? key = s.indexOf? key := by
      unfold Scope.indexOf? Scope.relabel
      dsimp only
      rw [List.findIdx?_map]
      rfl
    simp only [Option.map_some, Option.bind_eq_bind, Option.bind_some, hindex]

@[simp] theorem find?_relabel (start : Nat) (key : VariableKey) :
    (t.relabel g).find? start key = t.find? start key := by
  simp only [find?, path_relabel, slotIn?_relabel]

theorem info?_relabel (slot : Slot) :
    (t.relabel g).info? slot = (t.info? slot).map (VariableInfo.relabel g) := by
  unfold info?
  rw [scope?_relabel]
  cases t.scope? slot.scope with
  | none => rfl
  | some s => exact List.getElem?_map ..

theorem locals_relabel :
    (t.relabel g).locals = t.locals.map fun (slot, v) => (slot, v.relabel g) := by
  unfold locals relabel
  dsimp only
  rw [List.zipIdx_map, List.flatMap_map, List.map_flatMap]
  refine congrArg (List.flatMap · _) (funext fun (s, i) => ?_)
  simp only [Scope.relabel, Prod.map, id, List.zipIdx_map, List.map_map]
  rfl

/-! ### Operations -/

theorem modifyScope_relabel {f f' : Scope → Scope} (h : ∀ s, f' (s.relabel g) = (f s).relabel g)
    (i : Nat) : (t.relabel g).modifyScope i f' = (t.modifyScope i f).relabel g :=
  congrArg ScopeTree.mk (map_modify h t.scopes i)

theorem push_relabel (parent : Nat) (kind : ScopeKind) :
    (t.relabel g).push parent kind = ((t.push parent kind).1, (t.push parent kind).2.relabel g) := by
  have hmodify (i : Nat) : (t.relabel g).modifyScope parent (fun s => { s with children := s.children ++ [i] }) =
      (t.modifyScope parent fun s => { s with children := s.children ++ [i] }).relabel g :=
    modifyScope_relabel g t (f := fun s => { s with children := s.children ++ [i] }) (fun _ => rfl) parent
  unfold push
  dsimp only
  rw [hmodify]
  simp [relabel, Scope.relabel]

theorem declare_relabel (i : Nat) (key : VariableKey) (d : Declaration) :
    (t.relabel g).declare i key d = ((t.declare i key d).1, (t.declare i key d).2.relabel g) := by
  unfold declare
  rw [slotIn?_relabel]
  cases t.slotIn? i key with
  | some slot => rfl
  | none =>
    dsimp only
    rw [modifyScope_relabel g t (f := fun s => { s with locals := s.locals ++ [{ key, declaration := d }] })
      fun s => by simp [Scope.relabel, VariableInfo.relabel], scope?_relabel, Option.map_map]
    simp [Scope.relabel, Function.comp_def]

theorem resolve_relabel (start : Nat) (key : VariableKey) :
    (t.relabel g).resolve start key = ((t.resolve start key).1, (t.resolve start key).2.relabel g) := by
  unfold resolve
  rw [find?_relabel]
  cases t.find? start key with
  | some slot => rfl
  | none => exact declare_relabel ..

theorem noteEscapes_relabel (key : VariableKey) (isAssigned : Bool) (is : List Nat) :
    (t.relabel g).noteEscapes key isAssigned is = (t.noteEscapes key isAssigned is).relabel g := by
  induction is generalizing t with
  | nil => rfl
  | cons i is ih =>
    have hnote (s : Scope) :
        (s.relabel g).noteEscape key isAssigned = (s.noteEscape key isAssigned).relabel g := by
      unfold Scope.noteEscape
      show (if s.escaped.any _ then _ else _) = _
      split <;> rfl
    rw [noteEscapes, noteEscapes, modifyScope_relabel g t hnote, ih]

theorem modifyVariable_relabel {f f' : VariableInfo → VariableInfo}
    (h : ∀ v, f' (v.relabel g) = (f v).relabel g) (slot : Slot) :
    (t.relabel g).modifyVariable slot f' = (t.modifyVariable slot f).relabel g :=
  modifyScope_relabel g t
    (f := fun s => { s with locals := s.locals.modify slot.index f })
    (fun s => congrArg (fun locals => { s with locals }) (map_modify h s.locals slot.index)) slot.scope

/-- **An access does the same under other labels.** -/
theorem access_relabel (start : Nat) (key : VariableKey) (how : Access) :
    (t.relabel g).access start key (how.relabel g) =
      ((t.access start key how).1, (t.access start key how).2.relabel g) := by
  have hwrite : (how.relabel g).isWrite = how.isWrite := by cases how <;> rfl
  rw [access_eq, access_eq, resolve_relabel, hwrite]
  dsimp only
  rw [extractedUpTo_relabel, noteEscapes_relabel]
  refine congrArg (Prod.mk _) (modifyVariable_relabel g _ (fun v => ?_) _)
  simp only [isWithin_relabel]
  exact Access.applied_relabel ..

/-! ### The nodes that a tree names -/

variable {among : Nat → Prop} {t}

/-- Every assignment that carries a declaration is among these nodes. -/
def Names (among : Nat → Prop) (t : ScopeTree) : Prop :=
  ∀ s ∈ t.scopes, ∀ v ∈ s.locals, ∀ node, v.carrier = some node → among node

theorem Names.modifyScope (h : t.Names among) {f : Scope → Scope}
    (hf : ∀ s, (∀ v ∈ s.locals, ∀ node, v.carrier = some node → among node) →
      ∀ v ∈ (f s).locals, ∀ node, v.carrier = some node → among node) (i : Nat) :
    (t.modifyScope i f).Names among :=
  forall_mem_modify hf h i

theorem Names.push (h : t.Names among) (parent : Nat) (kind : ScopeKind) :
    (t.push parent kind).2.Names among := by
  have hmodified := h.modifyScope
    (f := fun s => { s with children := s.children ++ [t.scopes.length] }) (fun _ hs => hs) parent
  intro s hs
  rcases List.mem_append.mp hs with hs | hs
  · exact hmodified s hs
  · rw [List.mem_singleton.mp hs]
    exact fun v hv => nomatch hv

theorem Names.declare (h : t.Names among) (i : Nat) (key : VariableKey) (d : Declaration) :
    (t.declare i key d).2.Names among := by
  unfold ScopeTree.declare
  cases t.slotIn? i key with
  | some slot => exact h
  | none =>
    refine h.modifyScope (fun s hs v hv => ?_) i
    rcases List.mem_append.mp hv with hv | hv
    · exact hs v hv
    · rw [List.mem_singleton.mp hv]
      exact fun _ hnode => nomatch hnode

theorem Names.resolve (h : t.Names among) (start : Nat) (key : VariableKey) :
    (t.resolve start key).2.Names among := by
  unfold ScopeTree.resolve
  cases t.find? start key with
  | some slot => exact h
  | none => exact h.declare rootScope key .undeclared

theorem Names.noteEscapes (h : t.Names among) (key : VariableKey) (isAssigned : Bool) (is : List Nat) :
    (t.noteEscapes key isAssigned is).Names among := by
  induction is generalizing t with
  | nil => exact h
  | cons i is ih =>
    refine ih (h.modifyScope (fun s hs => ?_) i)
    rw [locals_noteEscape]
    exact hs

/-- **An access names no new node** but an assignment that may carry the declaration. -/
theorem Names.access (h : t.Names among) (start : Nat) (key : VariableKey) {how : Access}
    (hhow : ∀ node isStatement, how = .assignment node isStatement → among node) :
    (t.access start key how).2.Names among := by
  have hstep (escapes : Bool) (isOutside : Nat → Bool) (v : VariableInfo)
      (hv : ∀ node, v.carrier = some node → among node) :
      ∀ node, (how.applied start escapes isOutside v).carrier = some node → among node := by
    intro node hnode
    rw [Access.applied_eq] at hnode
    split at hnode
    · cases how with
      | reference isAssigned => exact hv node hnode
      | assignment n isStatement =>
        cases hnode
        exact hhow node isStatement rfl
      | output inline => exact hv node hnode
    · unfold VariableInfo.used at hnode
      dsimp only at hnode
      split at hnode
      · cases hnode
      · exact hv node hnode
  rw [access_eq]
  refine ((h.resolve start key).noteEscapes key _ _).modifyScope (fun s hs => ?_) _
  exact forall_mem_modify (hstep _ _) hs _

end ScopeTree
end TreeScribe
