import TreeScribe.Proofs.Render.Alike
import TreeScribe.Proofs.Render.Requests

/-! What rendering looks up, and that nothing else matters.

Rendering refers to the analysis through a few lookups: the declarations of a block, the uses of a
lambda parameter or a caught exception, and the variable that an assignment or an output argument
declares. If the lookups of whatever is asked for give the same for a tree and its twin, then the two
are written alike (`Twins.bare_root`). -/
namespace TreeScribe

/-! ### Atoms as they are written -/

/-- The atom without what only says something about it. -/
def Atom.bare? : Atom → Option Atom
  | .mention _ s => some (.token .variable s)
  | .declaration _ | .note _ => none
  | a => some a

namespace Atoms

/-- What is written of atoms: neither labels nor slots. -/
def bare (as : Atoms) : Atoms := as.filterMap Atom.bare?

@[simp] theorem bare_append (as bs : Atoms) : bare (as ++ bs) = bare as ++ bare bs :=
  List.filterMap_append

theorem write_bare (as : Atoms) (b : Buffer) : (bare as).write b = as.write b := by
  induction as generalizing b with
  | nil => rfl
  | cons a as ih =>
    cases a with
    | declaration _ | note _ => exact ih b
    | _ => exact ih _

/-- The same mark, for a node and for its twin. -/
inductive SameMark : Atoms → Atoms → Prop where
  | mention (node node' : Nat) (name : String) : SameMark (mention node name) (mention node' name)
  | declaration (slot : Slot) : SameMark [.declaration slot] [.declaration slot]

theorem SameMark.outline {as bs : Atoms} (h : SameMark as bs) : as.outline = bs.outline := by
  cases h with
  | mention node node' name =>
    unfold Atoms.mention
    split <;> rfl
  | declaration slot => rfl

theorem SameMark.bare {as bs : Atoms} (h : SameMark as bs) : as.bare = bs.bare := by
  cases h with
  | mention node node' name =>
    unfold Atoms.mention
    split <;> rfl
  | declaration slot => rfl

end Atoms

/-- Atoms that match are written alike. -/
theorem Matches.bare {as bs : Atoms} (h : Matches Atoms.SameMark as bs) : as.bare = bs.bare := by
  induction h with
  | nil => rfl
  | base h => exact h.bare
  | plain _ _ => rfl
  | note n n' => rfl
  | append _ _ ih ih' => rw [Atoms.bare_append, Atoms.bare_append, ih, ih']
  | indented _ ih => simp only [Atoms.indented, Atoms.bare_append, ih]
  | bracketed opening closing _ ih => simp only [Atoms.bracketed, Atoms.bare_append, ih]

namespace Twins

variable {T : Twins}

/-! ### Declarations -/

theorem alike_rfl {α : Type} (x : Rendering α) : Alike Eq x x := fun _ => ⟨rfl, rfl⟩

/-- The variable that a piece may declare is looked up alike for its twin. -/
def SameClaim (T : Twins) : Piece → Prop
  | .output e =>
    T.other.target? (T.label e.label) = T.analysis.target? e.label ∧
      ∀ slot, T.analysis.target? e.label = some slot →
        T.other.scopes.declaresOutput slot = T.analysis.scopes.declaresOutput slot
  | .assignment node _ =>
    T.other.target? (T.label node) = T.analysis.target? node ∧
      T.other.isTypedJoin (T.label node) = T.analysis.isTypedJoin node ∧
      ∀ slot, T.analysis.target? node = some slot →
        T.other.scopes.declaresAssignment slot (T.label node) =
          T.analysis.scopes.declaresAssignment slot node
  | _ => True

section Claims

variable (hbase : ∀ as bs, Atoms.SameMark as bs → T.base as bs)
include hbase

theorem matches_declaring (slot : Slot) {as bs : Atoms} (h : Matches T.base as bs) :
    Matches T.base (Atoms.declaring slot as) (Atoms.declaring slot bs) :=
  (Matches.base (hbase _ _ (.declaration slot))).append h

theorem agrees_output {e : Expr} (h : T.SameClaim (.output e)) : T.Agrees (.output e) := by
  obtain ⟨htarget, hdeclares⟩ := h
  show Alike (Matches T.base) (Render.outputAtoms T.env (T.child e))
    (Render.outputAtoms T.twin (T.twinOf e))
  unfold Render.outputAtoms twin env
  dsimp only
  rw [Node.label_relabel, Node.asParameter?_relabel, htarget]
  cases hslot : T.analysis.target? e.label with
  | none => exact .pure .nil
  | some slot =>
    dsimp only
    rw [hdeclares slot hslot]
    refine (alike_rfl _).bind fun declares _ heq => ?_
    subst heq
    cases declares with
    | false => exact .pure .nil
    | true =>
      rw [if_pos rfl, if_pos rfl]
      cases e.asParameter? with
      | none => exact .pure .nil
      | some v =>
        dsimp only
        split
        · exact .pure (matches_declaring hbase slot ((matches_typeName v.ty).append .space))
        · exact .pure (matches_declaring hbase slot ((Matches.keyword _).append .space))

theorem agrees_assignment {node : Nat} {left : Expr} (h : T.SameClaim (.assignment node left)) :
    T.Agrees (.assignment node left) := by
  obtain ⟨htarget, htyped, hdeclares⟩ := h
  show Alike (Matches T.base) (Render.declaringAtoms T.env node (T.child left))
    (Render.declaringAtoms T.twin (T.label node) (T.twinOf left))
  unfold Render.declaringAtoms twin env
  dsimp only
  rw [htarget, htyped, Node.ty_relabel]
  cases hslot : T.analysis.target? node with
  | none => exact .pure .nil
  | some slot =>
    dsimp only
    rw [hdeclares slot hslot]
    refine (alike_rfl _).bind fun declares _ heq => ?_
    subst heq
    cases declares with
    | false => exact .pure .nil
    | true =>
      rw [if_pos rfl, if_pos rfl]
      split
      · exact .pure (matches_declaring hbase slot ((matches_typeName left.ty).append .space))
      · exact .pure (matches_declaring hbase slot ((Matches.keyword _).append .space))

/-! ### Whole trees -/

/-- Whatever is looked up for a node that is asked for is the same for its twin. -/
structure SameAt (T : Twins) (x : Expr) (asked : Mode) : Prop where
  lookups : T.SameLookups x.label x.form
  claims : ∀ p ∈ (Arrangement.ofForm T.env x.label x.form asked).flatMap Step.pieces, T.SameClaim p
  chained : ∀ returns, asked = .chained returns → ∀ locals es ty, x.form ≠ .block locals es ty

/-- **If all lookups give the same, so does rendering.** -/
theorem made_of_asks {e : Expr} {request : Mode}
    (h : ∀ x asked, T.env.Asks e request x asked → T.SameAt x asked) :
    T.Made request (T.env.renderer e) (T.twin.renderer (e.relabel T.label)) := by
  induction e using Node.induction generalizing request with
  | h node form ih =>
    have hsame := h _ _ (.here (.mk node form) request)
    refine made_ofForm hsame.lookups hsame.chained fun p hp => ?_
    have hclaim := hsame.claims p hp
    cases p with
    | child mode c =>
      have hc := Arrangement.children_ofForm T.env node form request
        (Arrangement.mem_children_of_piece hp)
      exact ih c hc fun x asked hasks => h x asked (.there hp hasks)
    | output c => exact agrees_output hbase hclaim
    | assignment node' left => exact agrees_assignment hbase hclaim
    | mention node' name => exact .base (hbase _ _ (.mention node' (T.label node') name))
    | note n => exact trivial

end Claims

/-- **A tree and its twin are written alike** if whatever is looked up gives the same for both. -/
theorem bare_root (hbase : T.base = Atoms.SameMark) {e : Expr}
    (h : ∀ x asked, T.env.Asks e (Env.rootMode e) x asked → T.SameAt x asked) :
    ((T.env.root e).run []).1.atoms.bare =
      ((T.twin.root (e.relabel T.label)).run []).1.atoms.bare := by
  have hmade := made_of_asks (fun as bs hsame => by rw [hbase]; exact hsame) h
  unfold Env.rootMode at hmade
  unfold Env.root
  rw [Node.rendersAsStatements_relabel]
  split
  next hstatements =>
    rw [if_pos hstatements] at hmade
    have hmatches := (hmade []).1.atoms
    rw [hbase] at hmatches
    have hbare := hmatches.bare
    rw [Atoms.bare_append, Atoms.bare_append] at hbare
    exact List.append_cancel_left hbare
  next hvalue =>
    rw [if_neg hvalue] at hmade
    have hmatches := (hmade []).1.atoms
    rw [hbase] at hmatches
    exact hmatches.bare

end Twins
end TreeScribe
