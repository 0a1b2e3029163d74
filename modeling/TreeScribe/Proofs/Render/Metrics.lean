import TreeScribe.Proofs.Layout.Metrics
import TreeScribe.Proofs.Render.Gives
import TreeScribe.Proofs.Render.Laid

/-! Layout is decided by what is known of documents before they are written, and that is exact.

Only a document without any text has no line, whatever is made of a tree in whatever position
(`Env.counted_renderer`). So the lines of each document that is put into another one can be counted, and
the metrics of all that is made of a tree are those of the text that is written (`Env.metrics_exact`). -/
namespace TreeScribe

open Render Atoms

/-- Only a document that is empty has no line. -/
def Doc.IsCounted (d : Doc) : Prop := d.isAbsent = true → d.isEmpty = true

namespace Doc

theorem IsCounted.absent (kind : NodeKind) (ty : TypeRef) : (Doc.absent kind ty).IsCounted := fun _ => rfl

theorem IsCounted.parenthesized (d : Doc) : d.parenthesized.IsCounted := nofun

theorem IsCounted.returned (d : Doc) : d.returned.IsCounted := nofun

theorem IsCounted.braced (d : Doc) : d.braced.IsCounted := nofun

theorem IsCounted.terminated {d : Doc} (h : d.IsCounted) : d.terminated.IsCounted := by
  unfold Doc.terminated
  split
  · exact h
  · exact nofun

theorem IsCounted.noted {d : Doc} (h : d.IsCounted) (node : Nat) : (d.noted node).IsCounted := by
  unfold Doc.noted
  split
  · exact h
  next hempty => exact fun habsent => absurd (h habsent) hempty

end Doc

/-- Of all that a renderer makes, only what is empty has no line. -/
structure CountedRenderer (r : Renderer) : Prop where
  inPosition : ∀ p, Gives (r.inPosition p) Doc.IsCounted
  body : ∀ returns, Gives (r.body returns) Doc.IsCounted
  chained : ∀ returns, Gives (r.chained returns) Doc.IsCounted
  landing : ∀ returns, Gives (r.landing returns) Doc.IsCounted
  elements : Gives r.elements fun ds => ∀ d ∈ ds, d.IsCounted

namespace Render

variable {env : Env}

abbrev CountedChild (c : Child) : Prop := CountedRenderer c.2

theorem counted_value {c : Child} (h : CountedChild c) : Gives (value c) Doc.IsCounted := h.inPosition _

/-! ### Operators -/

theorem counted_staticCall {kind : NodeKind} {declaring : TypeRef} {name : String} {ty : TypeRef}
    {args : List Child} : Gives (staticCall env kind declaring name ty args) Doc.IsCounted :=
  .after fun _ => .pure nofun

theorem counted_operation {op : BinaryOp} {left right : Child} {ty : TypeRef} :
    Gives (operation op left right ty) Doc.IsCounted :=
  .after fun _ => .pure nofun

theorem counted_binary {op : BinaryOp} {left right : Child} {ty : TypeRef} {method : Option MethodInfo} :
    Gives (binary env op left right ty method) Doc.IsCounted := by
  unfold binary
  split
  · exact counted_staticCall
  · split
    · exact counted_staticCall
    · split
      · exact .after fun _ => .after fun _ => .pure nofun
      · split
        · exact .after fun _ => .pure nofun
        · exact counted_operation

theorem counted_assignment {node : Nat} {op : BinaryOp} {left right : Child} {ty : TypeRef} :
    Gives (assignment env node op left right ty) Doc.IsCounted := by
  refine .after fun declaring => .after fun target => ?_
  dsimp only
  split
  · exact .after fun _ => .pure nofun
  · split <;> exact .after fun _ => .pure nofun

/-- An operator that is not written leaves its operand as it is. -/
theorem counted_unary {op : UnaryOp} {operand? : Option Child} (h : ∀ c ∈ operand?, CountedChild c) {ty : TypeRef}
    {method : Option MethodInfo} : Gives (unary env op operand? ty method) Doc.IsCounted := by
  cases operand? with
  | none => exact .pure nofun
  | some c =>
    have hvalue := counted_value (h c rfl)
    unfold unary
    dsimp only
    split
    · exact counted_staticCall
    · cases op with
      | isTrue => exact hvalue
      | convert | convertChecked | unbox =>
        dsimp only
        split
        · exact hvalue
        · exact .after fun _ => .pure nofun
      | _ => exact .after fun _ => .pure nofun

theorem counted_typeTest {c : Child} {tested : TypeRef} {exact : Bool} :
    Gives (typeTest env c tested exact) Doc.IsCounted := by
  unfold typeTest
  split <;> exact .after fun _ => .pure nofun

/-! ### Members, construction and initializers -/

theorem counted_call {receiver : Option Child} {m : MethodInfo} {args : List Child} :
    Gives (call env receiver m args) Doc.IsCounted := by
  unfold call
  dsimp only
  split
  · exact .after fun _ => .pure nofun
  · exact .after fun _ => .after fun _ => .pure nofun

theorem counted_invoke {target : Child} {args : List Child} {ty : TypeRef} :
    Gives (invoke env target args ty) Doc.IsCounted := by
  have hcalled (subject : Doc) : Gives (do
      let list ← argumentList env args []
      return ({ kind := .invoke, ty
                atoms := subject.atoms ++ text "." ++ methodName "Invoke" ++ list.atoms } : Doc)) Doc.IsCounted :=
    .after fun _ => .pure nofun
  unfold invoke
  dsimp only
  split
  · exact .after fun d => hcalled d.parenthesized
  · exact .after hcalled

theorem counted_memberAccess {receiver : Option Child} {info : MemberInfo} :
    Gives (memberAccess env receiver info) Doc.IsCounted := by
  unfold memberAccess
  dsimp only
  split
  · exact .pure nofun
  · split
    · split
      · split <;> exact .pure nofun
      · exact .pure nofun
    · exact .after fun _ => .pure nofun

theorem counted_index {object : Child} {args : List Child} {ty : TypeRef} :
    Gives (index object args ty) Doc.IsCounted :=
  .after fun _ => .after fun _ => .pure nofun

theorem counted_new {creation : Creation Child} : Gives (new env creation) Doc.IsCounted := by
  unfold new
  dsimp only
  split <;> exact .after fun _ => .pure nofun

theorem counted_newArray {elementType : TypeRef} {expressions : List Child} {bounds : Bool} :
    Gives (newArray env elementType expressions bounds) Doc.IsCounted := by
  refine .after fun _ => ?_
  dsimp only
  split <;> exact .pure nofun

theorem counted_memberInit {creation : Creation Child} {bindings : List (Binding Child)} :
    Gives (memberInit env creation bindings) Doc.IsCounted :=
  .after fun _ => .pure nofun

theorem counted_listInit {creation : Creation Child} {items : List (ElementInit Child)} :
    Gives (listInit env creation items) Doc.IsCounted :=
  .after fun _ => .pure nofun

theorem counted_extension {name : String} {ty : TypeRef} {display : Option String} {operands : List Child} :
    Gives (extension name ty display operands) Doc.IsCounted := by
  unfold extension
  split
  · exact .pure fun h => absurd h Bool.false_ne_true
  · split
    · exact .pure fun h => absurd h Bool.false_ne_true
    · exact .after fun _ => .pure fun h => absurd h Bool.false_ne_true

theorem counted_defaultValue {ty : TypeRef} : (defaultValue env ty).IsCounted := by
  unfold defaultValue
  split
  · exact .absent _ _
  · exact nofun

/-! ### Statements -/

theorem counted_blockStatements {node : Nat} {expressions : List Child} {ty : TypeRef} {role : BlockRole} :
    Gives (blockStatements env node expressions ty role) Doc.IsCounted :=
  .after fun _ => .pure nofun

theorem counted_nestedBlock {node : Nat} {locals : List Variable} {expressions : List Child} {ty : TypeRef}
    {returns : Bool} : Gives (nestedBlock env node locals expressions ty returns) Doc.IsCounted := by
  refine (counted_blockStatements).bind fun d hd => .pure ?_
  split
  · exact hd
  · exact .braced d

/-- A block of one expression is written as that expression. -/
theorem counted_valueBlock {node : Nat} {locals : List Variable} {expressions : List Child}
    (h : ∀ c ∈ expressions, CountedChild c) {ty : TypeRef} :
    Gives (valueBlock env node locals expressions ty) Doc.IsCounted := by
  unfold valueBlock
  dsimp only
  split
  · exact counted_value (h _ (List.mem_singleton_self _))
  · split
    · exact .pure nofun
    · exact .after fun d => .pure (.braced d)

theorem counted_lambda {node : Nat} {parameters : List Variable} {body : Child} {returnType ty : TypeRef} :
    Gives (lambda env node parameters body returnType ty) Doc.IsCounted := by
  unfold lambda
  dsimp only
  split <;> exact .after fun _ => .pure nofun

theorem counted_ternary {test ifTrue ifFalse : Child} {ty : TypeRef} :
    Gives (ternary test ifTrue ifFalse ty) Doc.IsCounted :=
  .after fun _ => .after fun _ => .after fun _ => .pure nofun

theorem counted_ifStatement {test ifTrue ifFalse : Child} {ty : TypeRef} {returns : Bool} :
    Gives (ifStatement test ifTrue ifFalse ty returns) Doc.IsCounted := by
  refine .after fun taken => .after fun condition => ?_
  dsimp only
  split
  · exact .pure nofun
  · split <;> exact .after fun _ => .pure nofun

theorem counted_loop {node : Nat} {body : Child} {breakTarget : Option Target} :
    Gives (loop env node body breakTarget) Doc.IsCounted :=
  .after fun _ => .pure nofun

theorem counted_jump {kind : JumpKind} {target : Target} {result : Option Child} {ty : TypeRef} :
    Gives (jump kind target result ty) Doc.IsCounted := by
  unfold jump
  dsimp only
  split
  · exact .pure nofun
  · exact .pure nofun
  · exact .pure nofun
  · split
    · exact .after fun d => .pure (.returned d)
    · exact .pure nofun

/-- A label that nothing jumps to is not written. -/
theorem counted_label {target : Target} {defaultValue : Option Child} {returns : Bool} :
    Gives (label env target defaultValue returns) Doc.IsCounted := by
  unfold label
  dsimp only
  split
  · exact .after fun _ => .pure nofun
  · split
    · exact .pure nofun
    · exact .pure (.absent _ _)

theorem counted_switch {node : Nat} {subject : Child} {cases : List (SwitchCase Child)}
    {defaultBody : Option Child} {ty : TypeRef} {returns : Bool} :
    Gives (switch node subject cases defaultBody ty returns) Doc.IsCounted := by
  refine .after fun subject => .after fun rest => ?_
  dsimp only
  split
  · exact .pure nofun
  · exact .after fun _ => .pure nofun

theorem counted_attempt {tried : Child} {handlers : List (Handler Child)} {cleanup fault : Option Child}
    {ty : TypeRef} {returns : Bool} : Gives (attempt env tried handlers cleanup fault ty returns) Doc.IsCounted := by
  refine .after fun d => .after fun handlers => ?_
  -- the bodies of a fault and a cleanup come first, where there are any
  cases fault <;> cases cleanup
  · exact .pure nofun
  · exact .after fun _ => .after fun _ => .pure nofun
  · exact .after fun _ => .pure nofun
  · exact .after fun _ => .after fun _ => .after fun _ => .pure nofun

/-! ### Whole trees -/

section Tree

variable (env) (node : Nat) {form : Form Child}

theorem counted_custom? : Gives (custom? env node form) fun d? => ∀ d ∈ d?, d.IsCounted := by
  unfold custom?
  split
  · exact .pure (by simp)
  · refine .after fun s? => .pure fun d hd => ?_
    obtain ⟨s, -, rfl⟩ := Option.map_eq_some_iff.mp hd
    exact nofun

/-- Unless a custom renderer makes something of the node. -/
theorem counted_unlessCustom {x : Rendering Doc} (hx : Gives x Doc.IsCounted) {f : Doc → Doc}
    (hf : ∀ d, d.IsCounted → (f d).IsCounted) :
    Gives (do
      match ← custom? env node form with
      | some d => return f d
      | none => x) Doc.IsCounted := by
  refine (counted_custom? env node).bind fun d? hd? => ?_
  cases d? with
  | none => exact hx
  | some d => exact .pure (hf d (hd? d rfl))

variable (h : ∀ c ∈ form.children, CountedChild c)

include h

theorem counted_builtIn : Gives (builtIn env node form) Doc.IsCounted := by
  cases form with
  | constant c => exact .pure nofun
  | parameter v => exact .pure nofun
  | binary op left right ty method =>
    dsimp only [builtIn]
    split
    · exact counted_assignment
    · exact counted_binary
  | unary op operand? ty method => exact counted_unary fun c hc => h c (Option.mem_toList.mpr hc)
  | conditional test ifTrue ifFalse ty =>
    dsimp only [builtIn]
    split
    · exact counted_ternary
    · exact counted_ifStatement
  | block locals expressions ty => exact counted_valueBlock h
  | lambda name parameters body returnType ty => exact counted_lambda
  | call receiver method args => exact counted_call
  | invoke target args ty => exact counted_invoke
  | member receiver info => exact counted_memberAccess
  | new creation => exact counted_new
  | newArray elementType expressions bounds => exact counted_newArray
  | memberInit creation bindings => exact counted_memberInit
  | listInit creation items => exact counted_listInit
  | loop body breakTarget _ => exact counted_loop
  | jump kind target result ty => exact counted_jump
  | label target defaultValue => exact counted_label
  | switch subject cases defaultBody ty => exact counted_switch
  | «try» tried handlers cleanup fault ty => exact counted_attempt
  | default ty => exact .pure counted_defaultValue
  | index object _ args ty => exact counted_index
  | typeTest expression tested exact => exact counted_typeTest
  | comment s => exact .pure nofun
  | extension name ty display operands => exact counted_extension

theorem counted_asValue : Gives (asValue env node form) Doc.IsCounted :=
  counted_unlessCustom env node (counted_builtIn env node h) fun _ hd => hd

theorem counted_asStatement : Gives (asStatement env node form) Doc.IsCounted := by
  refine counted_unlessCustom env node ?_ fun _ hd => hd
  split
  · exact counted_nestedBlock
  · exact counted_ifStatement
  · exact counted_asValue env node h

theorem counted_asReturning : Gives (asReturning env node form) Doc.IsCounted := by
  have hreturned (d : Doc) (hd : d.IsCounted) : (if isNotReturned form then d else d.returned).IsCounted := by
    split
    · exact hd
    · exact .returned d
  have hvalue := (counted_asValue env node h).bind fun d hd => Gives.pure (hreturned d hd)
  refine counted_unlessCustom env node ?_ hreturned
  split
  · exact counted_nestedBlock
  · split
    · exact hvalue
    · exact counted_ifStatement
  · exact counted_switch
  · exact counted_attempt
  · exact counted_label
  · exact hvalue

theorem counted_asBody (returns : Bool) : Gives (asBody env node form returns) Doc.IsCounted := by
  have hsingle : Gives (do
      let d ← if returns then asReturning env node form else asStatement env node form
      return (d.noted node).terminated) Doc.IsCounted := by
    cases returns with
    | true => exact (counted_asReturning env node h).bind fun d hd => .pure (hd.noted node).terminated
    | false => exact (counted_asStatement env node h).bind fun d hd => .pure (hd.noted node).terminated
  unfold asBody
  dsimp only
  split
  · split
    · exact (counted_blockStatements).bind fun d hd => .pure (hd.noted node)
    · exact hsingle
  · exact hsingle

theorem counted_form : CountedRenderer (renderer env node form) where
  inPosition
    | .value => (counted_asValue env node h).map fun d hd => by
        unfold notedValue
        split
        · exact hd
        · exact hd.noted node
    | .statement => (counted_asStatement env node h).map fun _ hd => hd.noted node
    | .returning => (counted_asReturning env node h).map fun _ hd => hd.noted node
  body := counted_asBody env node h
  chained returns := by
    refine Gives.map (P := Doc.IsCounted) ?_ fun _ hd => hd.noted node
    unfold asChained
    split
    · exact counted_ifStatement
    · exact counted_asStatement env node h
  landing returns := by
    refine Gives.map (P := Doc.IsCounted) ?_ fun _ hd => hd.noted node
    unfold asLanding
    split
    · exact counted_label
    · exact counted_asReturning env node h
  elements := by
    show Gives (asElements form) _
    unfold asElements
    split
    · exact .mapM fun c hc => counted_value (h c hc)
    · exact .pure (List.forall_mem_nil _)

end Tree

end Render

namespace Env

variable (env : Env)

/-- Whatever is made of a tree has a line unless it is empty. -/
theorem counted_renderer (e : Expr) : CountedRenderer (env.renderer e) := by
  induction e using Node.induction with
  | h node form ih =>
    rw [renderer_mk]
    refine counted_form env node fun c hc => ?_
    rw [Form.children_map] at hc
    obtain ⟨e, he, rfl⟩ := List.mem_map.mp hc
    exact ih e he

/-- The document is made of a tree in some position, whatever was declared before, or is such a document
with what completes it. -/
inductive Makes (e : Expr) : Doc → Prop
  | inPosition (p : Position) (declared : List Slot) : Makes e (((env.renderer e).inPosition p).run declared).1
  | body (returns : Bool) (declared : List Slot) : Makes e (((env.renderer e).body returns).run declared).1
  | chained (returns : Bool) (declared : List Slot) : Makes e (((env.renderer e).chained returns).run declared).1
  | landing (returns : Bool) (declared : List Slot) : Makes e (((env.renderer e).landing returns).run declared).1
  | element {d : Doc} (declared : List Slot) (h : d ∈ ((env.renderer e).elements.run declared).1) : Makes e d
  | parenthesized {d : Doc} (h : Makes e d) : Makes e d.parenthesized
  | terminated {d : Doc} (h : Makes e d) : Makes e d.terminated
  | returned {d : Doc} (h : Makes e d) : Makes e d.returned
  | braced {d : Doc} (h : Makes e d) : Makes e d.braced

variable {env}

theorem Makes.isCounted {e : Expr} {d : Doc} (h : env.Makes e d) : d.IsCounted := by
  have hrenderer := env.counted_renderer e
  induction h with
  | inPosition p declared => exact hrenderer.inPosition p declared
  | body returns declared => exact hrenderer.body returns declared
  | chained returns declared => exact hrenderer.chained returns declared
  | landing returns declared => exact hrenderer.landing returns declared
  | element declared h => exact hrenderer.elements declared _ h
  | @parenthesized d _ _ => exact .parenthesized d
  | terminated _ ih => exact ih.terminated
  | @returned d _ _ => exact .returned d
  | @braced d _ _ => exact .braced d

/-- **What is known of a document before it is written is exact**, for every tree in every position. Its
size is the length of its text where nothing is indented. Unless it is empty it has a line, its lines are
those of the buffer it is written to if no text breaks lines of its own, and however it is put together
of parts that are not empty, the lines of each of them can be counted, and the metrics come out the same. -/
theorem metrics_exact {e : Expr} {d : Doc} (h : env.Makes e d) (format : Format) :
    (d.written format "").raw.length = d.size ∧ (d.isEmpty = false →
      1 ≤ d.lines ∧
      (d.HasPlainLines → ∀ indent, (d.written format indent).lineCount = d.lines) ∧
      ∀ fragments, (∀ p ∈ fragments, p.IsKept) → Fragment.atomsAll fragments = d.atoms →
        Metrics.ofFragments? format fragments = some ⟨d.size, d.formatting format, d.lines⟩) := by
  refine ⟨d.length_raw format, fun hnonempty => ?_⟩
  have hwritten : d.isAbsent = false := by
    by_contra habsent
    rw [h.isCounted (by simpa using habsent)] at hnonempty
    cases hnonempty
  refine ⟨?_, fun hplain => Doc.lineCount_written hwritten hplain format, fun fragments =>
    Doc.metrics_ofFragments hwritten format⟩
  rw [Doc.lines, hwritten]
  exact Nat.succ_pos _

/-- `// counts`, `x + 1` and a label that nothing jumps to. -/
def counting : Expr :=
  let x : Expr := .mk 2 (.parameter { name := "x", ty := .int })
  let one : Expr := .mk 3 (.constant ⟨.int 1, .int⟩)
  .mk 0 (.block [] [.mk 1 (.comment "counts"), .mk 4 (.binary .add x one .int none),
    .mk 5 (.label { name := "end", ty := .void } none)] .void)

/-- In braces it takes four lines. It is put together of the braces and of the statements, which are nested. -/
theorem metrics_exact_counting :
    let statements := (((Env.ofExpr {} counting).body counting false).run []).1
    let fragments : List Fragment := [.atom (.opening "\x7b"), .atom .indent, .atom .newline,
      .nested (statements.atoms.map .atom), .atom .unindent, .atom .newline, .atom (.closing "\x7d")]
    (Env.ofExpr {} counting).Makes counting statements.braced ∧
      (statements.braced.written .html "").raw.length = 20 ∧
      (statements.braced.written .html "\t").lineCount = 4 ∧
      Metrics.ofFragments? .html fragments = some ⟨20, 72, 4⟩ := by
  intro statements fragments
  have hmade : (Env.ofExpr {} counting).Makes counting statements.braced := .braced (.body false [])
  have hmetrics : (statements.braced.size, statements.braced.formatting .html, statements.braced.lines) =
      (20, 72, 4) := by decide +kernel
  obtain ⟨hsize, hrest⟩ := Prod.mk.inj hmetrics
  obtain ⟨hformatting, hlines⟩ := Prod.mk.inj hrest
  have hplain : statements.braced.HasPlainLines := by decide +kernel
  have hkept : ∀ p ∈ fragments, p.IsKept := by
    have hnested : Fragment.IsKept (.nested (statements.atoms.map .atom)) :=
      .nested (by decide +kernel) (List.forall_mem_map.mpr fun a _ => .atom a)
    simp [fragments, hnested, Fragment.IsKept.atom]
  obtain ⟨hlength, hwritten⟩ := metrics_exact hmade .html
  obtain ⟨-, hlineCount, hfragments⟩ := hwritten (by decide +kernel)
  refine ⟨hmade, hlength.trans hsize, (hlineCount hplain "\t").trans hlines, ?_⟩
  rw [hfragments fragments hkept (by decide +kernel), hsize, hformatting, hlines]

end Env

end TreeScribe
