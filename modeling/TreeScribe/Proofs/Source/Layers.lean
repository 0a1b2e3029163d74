import TreeScribe.Proofs.Layout.Markup
import TreeScribe.Proofs.Layout.Shift
import TreeScribe.Proofs.Source.Extraction

/-! The layers of a source file.

The methods of a tree can be had on their own, in a class, or in a class in a file. The methods are well
laid, so that they are the same lines at every depth, and the text of each layer is that of the one within
it, indented and in braces (`Source.layers`). -/
namespace TreeScribe

open Atoms

/-! ### Methods are well laid -/

theorem Laid.intercalate {P : TypeRef → Prop} {separator : Atoms} (hs : Laid P separator)
    {parts : List Atoms} (h : ∀ as ∈ parts, Laid P as) : Laid P (separator.intercalate parts) :=
  intercalate_induction .nil (fun _ _ => .append) hs h

namespace MethodModel

theorem wellLaid_summaryAtoms (summary : String) : WellLaid (summaryAtoms summary) := by
  unfold summaryAtoms
  have hlines : WellLaid ((Text.lines summary.toList).flatMap fun line =>
      newline ++ token .comment ("/// " ++ String.ofList (Text.trimEnd line))) := by
    refine .flatten fun as has => ?_
    obtain ⟨line, -, rfl⟩ := List.mem_map.mp has
    exact .append .newline (.token ..)
  exact ((((Laid.token ..).append hlines).append .newline).append (.token ..)).append .newline

theorem wellLaid_parameterAtoms (settings : Settings) (v : Variable) :
    WellLaid (parameterAtoms settings v) := by
  have href : WellLaid (keyword "ref" ++ space) := .append (.keyword _) .space
  have htype : WellLaid (typeName settings.typeNames v.ty) := .typeName _ trivial
  exact (((href.when _).append htype).append .space).append (.varName _)

theorem wellLaid_signature (settings : Settings) (m : MethodModel) : WellLaid (signature settings m) := by
  have hparameters : WellLaid (Atoms.separated ", " (m.parameters.map (parameterAtoms settings))) := by
    refine .separated _ fun as has => ?_
    obtain ⟨v, -, rfl⟩ := List.mem_map.mp has
    exact wellLaid_parameterAtoms settings v
  have htype : WellLaid (typeName settings.typeNames m.returns) := .typeName _ trivial
  have hstart : WellLaid (keyword m.visibility.text ++ space) := .append (.keyword _) .space
  exact (((hstart.append htype).append .space).append (.methodName _)).append hparameters.parens

theorem wellLaid_atoms (settings : Settings) (calls : List (Nat × ExtractedCall)) (m : MethodModel) :
    WellLaid (m.atoms settings calls) := by
  have hsummary : WellLaid ((m.summary.map summaryAtoms).getD []) := by
    cases m.summary with
    | none => exact .nil
    | some summary => exact wellLaid_summaryAtoms summary
  have hbody : (m.bodyDoc settings calls).IsWellLaid := by
    rw [bodyDoc_eq]
    exact ((Env.wellLaid_renderer _ m.body).body m.returnsValue []).braced
  exact ((hsummary.append (wellLaid_signature settings m)).append .newline).append hbody

end MethodModel

namespace ClassModel

theorem wellLaid_methodAtoms (settings : Settings) (c : ClassModel) : WellLaid (c.methodAtoms settings) := by
  refine Laid.intercalate (.append .newline .newline) fun as has => ?_
  obtain ⟨m, -, rfl⟩ := List.mem_map.mp has
  exact m.wellLaid_atoms settings c.calls

theorem wellLaid_header (settings : Settings) (c : ClassModel) : WellLaid (c.header settings) := by
  have hinterfaces : WellLaid (Atoms.separated ", " (c.interfaces.map (typeName settings.typeNames))) := by
    refine .separated _ fun as has => ?_
    obtain ⟨t, -, rfl⟩ := List.mem_map.mp has
    exact .typeName _ trivial
  have hstart : WellLaid (keyword "public" ++ space ++ keyword "class" ++ space) :=
    (((Laid.keyword _).append .space).append (.keyword _)).append .space
  exact (hstart.append (.token ..)).append (.when _ ((Laid.text _).append hinterfaces))

theorem wellLaid_atoms (settings : Settings) (c : ClassModel) : WellLaid (c.atoms settings) :=
  wellLaid_nested (c.wellLaid_header settings) (c.wellLaid_methodAtoms settings)

end ClassModel

/-! ### The text of each layer -/

namespace Source

/-- A header line, and a text in braces under it, one step further in. -/
def nestedText (indent header text : List Char) : List Char :=
  header ++ "\n\x7b\n".toList ++ Text.indentLines indent text ++ "\n\x7d".toList

/-- The lines that open namespaces, with an empty line after them. -/
def usingLines (usings : List String) : List Char :=
  usings.flatMap (fun space => "using ".toList ++ space.toList ++ ";\n".toList) ++
    if usings.isEmpty then [] else ['\n']

def classText (indent method : List Char) : List Char :=
  nestedText indent ("public class ".toList ++ defaultClassName.toList) method

def fileText (indent : List Char) (usings : List String) (cls : List Char) : List Char :=
  nestedText indent (usingLines usings ++ "namespace ".toList ++ defaultNamespace.toList) cls

end Source

/-- In the plain format texts are laid out as they are. -/
theorem Settings.toList_layOut {settings : Settings} (h : settings.format = .plain) (as : Atoms) :
    (settings.layOut as).toList = as.rawText settings.indent := by
  have hmarked : Buffer.IsMarked .plain { format := .plain, indent := settings.indent } :=
    ⟨rfl, Format.marks_nil⟩
  have htext : (as.write { format := .plain, indent := settings.indent }).text.toList =
      (as.write { format := .plain, indent := settings.indent }).raw.toList := (hmarked.atoms as).text
  rw [layOut, h, htext, ((Buffer.Shows.start .plain settings.indent).atoms as).raw]
  rfl

/-- A plan for one tree gives one class without interfaces. -/
theorem SourcePlan.classes_ofExpr {settings : Settings} {e : Expr} {model : SourceModel}
    (h : (SourcePlan.ofExpr e).build settings = .ok model) :
    model.nameSpace = defaultNamespace ∧
      ∃ c, model.classes = [c] ∧ c.name = defaultClassName ∧ c.interfaces = [] := by
  obtain ⟨_, -, h⟩ := exists_of_bind_ok h
  obtain ⟨names, hnames, h⟩ := exists_of_bind_ok h
  obtain ⟨built, hbuilt, h⟩ := exists_of_bind_ok h
  cases h
  refine ⟨rfl, ?_⟩
  have hname : (SourcePlan.ofExpr e).classNames = .ok [defaultClassName] := rfl
  obtain rfl : [defaultClassName] = names := Except.ok.inj (hname.symm.trans hnames)
  obtain ⟨⟨c, namespaces⟩, rest, hc, hnil, rfl⟩ := List.forall₂_cons_left_iff.mp (forall₂_of_mapM_ok hbuilt)
  cases hnil
  refine ⟨c, rfl, ?_⟩
  obtain ⟨parsed, -, hc⟩ := exists_of_bind_ok hc
  obtain ⟨slots, -, hc⟩ := exists_of_bind_ok hc
  obtain ⟨_, -, hc⟩ := exists_of_bind_ok hc
  cases hc
  exact ⟨rfl, rfl⟩

theorem ClassModel.rawText_atoms {settings : Settings} (hindent : '\n' ∉ settings.indent.toList)
    {c : ClassModel} (hname : c.name = defaultClassName) (hinterfaces : c.interfaces = []) :
    (c.atoms settings).rawText settings.indent =
      Source.classText settings.indent.toList ((c.methodAtoms settings).rawText settings.indent) := by
  have hheader : (c.header settings).rawText settings.indent =
      "public class ".toList ++ defaultClassName.toList := by
    rw [Atoms.rawText_level]
    · simp [header, hinterfaces, hname, Atoms.when, keyword, space, text]
    · simp [header, hinterfaces, Atoms.when, keyword, space, text]
  exact (rawText_nested hindent (c.wellLaid_header settings) (c.wellLaid_methodAtoms settings)).trans
    (by rw [hheader]; rfl)

/-- What stands above the braces of a namespace. -/
def SourceModel.header (s : SourceModel) : Atoms :=
  s.usings.flatMap usingAtoms ++ Atoms.when (!s.usings.isEmpty) newline ++
    keyword "namespace" ++ space ++ text s.nameSpace

namespace SourceModel

theorem wellLaid_header (s : SourceModel) : WellLaid s.header := by
  have husing (x : String) : WellLaid (usingAtoms x) :=
    ((((Laid.keyword _).append .space).append (.text _)).append (.text _)).append .newline
  have husings : WellLaid (s.usings.flatMap usingAtoms) := by
    refine .flatten fun as has => ?_
    obtain ⟨x, -, rfl⟩ := List.mem_map.mp has
    exact husing x
  exact (((husings.append (.when _ .newline)).append (.keyword _)).append .space).append (.text _)

theorem rawText_header (s : SourceModel) (indent : String) :
    s.header.rawText indent =
      Source.usingLines s.usings ++ "namespace ".toList ++ s.nameSpace.toList := by
  have husing (x : String) : (usingAtoms x).flatMap Atom.chars =
      "using ".toList ++ x.toList ++ ";\n".toList := by
    simp [usingAtoms, keyword, space, text, newline, Atom.chars]
  have hbreak : (Atoms.when (!s.usings.isEmpty) newline).flatMap Atom.chars =
      if s.usings.isEmpty then [] else ['\n'] := by
    cases s.usings <;> rfl
  rw [Atoms.rawText_level]
  · simp only [header, List.flatMap_append, List.flatMap_assoc, husing, hbreak, keyword, space, text,
      Atoms.chars_token, Source.usingLines]
    simp
  · have hbreak (condition : Bool) : Atom.indent ∉ Atoms.when condition [Atom.newline] := by
      cases condition <;> simp [Atoms.when]
    simp [header, hbreak, usingAtoms, keyword, space, text, newline]

theorem rawText_atoms {settings : Settings} (hindent : '\n' ∉ settings.indent.toList) {s : SourceModel}
    (hname : s.nameSpace = defaultNamespace) {c : ClassModel} (hclasses : s.classes = [c]) :
    (s.atoms settings).rawText settings.indent =
      Source.fileText settings.indent.toList s.usings ((c.atoms settings).rawText settings.indent) := by
  have hatoms : s.atoms settings = nested s.header (c.atoms settings) := by
    unfold SourceModel.atoms
    rw [hclasses, List.map_singleton, List.intercalate_singleton]
    rfl
  rw [hatoms, rawText_nested hindent s.wellLaid_header (c.wellLaid_atoms settings), s.rawText_header, hname]
  rfl

end SourceModel

/-- **A file is its class in a namespace, and the class is its methods in braces.** For every tree the three
texts are refused with the same error or all there. The class is then its header and the methods, indented
in braces; and the file is the lines that open namespaces, the line of its own namespace and the class,
indented in braces. -/
theorem Source.layers (settings : Settings) (e : Expr) (hplain : settings.format = .plain)
    (hindent : '\n' ∉ settings.indent.toList) :
    (∃ error, methodOf settings e = .error error ∧ classOf settings e = .error error ∧
      fileOf settings e = .error error) ∨
    ∃ model method cls file, (SourcePlan.ofExpr e).build settings = .ok model ∧
      methodOf settings e = .ok method ∧ classOf settings e = .ok cls ∧ fileOf settings e = .ok file ∧
      cls.toList = classText settings.indent.toList method.toList ∧
      file.toList = fileText settings.indent.toList model.usings cls.toList := by
  unfold methodOf classOf fileOf Source.file
  cases h : (SourcePlan.ofExpr e).build settings with
  | error error => exact .inl ⟨error, rfl, rfl, rfl⟩
  | ok model =>
    obtain ⟨hname, c, hclasses, hclassName, hinterfaces⟩ := SourcePlan.classes_ofExpr h
    refine .inr ⟨model, settings.layOut (c.methodAtoms settings), settings.layOut (c.atoms settings),
      settings.layOut (model.atoms settings), rfl, ?_, ?_, rfl, ?_, ?_⟩
    · show Except.ok _ = Except.ok _
      rw [hclasses]
      rfl
    · show Except.ok _ = Except.ok _
      rw [hclasses]
      rfl
    · rw [Settings.toList_layOut hplain, Settings.toList_layOut hplain,
        ClassModel.rawText_atoms hindent hclassName hinterfaces]
    · rw [Settings.toList_layOut hplain, Settings.toList_layOut hplain,
        SourceModel.rawText_atoms hindent hname hclasses]

/-- `(DateTime d) => { n = n; n } + n`, where the block becomes a method of its own. -/
def stamped : Expr :=
  let d : Variable := { name := "d", ty := .named .struct "System" "DateTime" }
  let n (node : Nat) : Expr := .mk node (.parameter { name := "n", ty := .int })
  let block : Expr := .mk 2 (.block [] [.mk 3 (.binary .assign (n 4) (n 5) .int none), n 6] .int)
  .mk 0 (.lambda none [d] (.mk 1 (.binary .add block (n 7) .int none)) .int .object)

/-- Two methods with an empty line between them, under a line that opens a namespace. -/
theorem Source.layers_stamped :
    let settings : Settings := { indent := "\t" }
    (settings.format = .plain ∧ '\n' ∉ settings.indent.toList) ∧
    ∃ model method cls file, (SourcePlan.ofExpr stamped).build settings = .ok model ∧
      model.usings = ["System"] ∧ methodOf settings stamped = .ok method ∧
      classOf settings stamped = .ok cls ∧ fileOf settings stamped = .ok file ∧
      cls.toList = classText settings.indent.toList method.toList ∧
      file.toList = fileText settings.indent.toList model.usings cls.toList := by
  intro settings
  have hplain : settings.format = .plain := rfl
  have hindent : '\n' ∉ settings.indent.toList := by decide
  have husings : (match (SourcePlan.ofExpr stamped).build settings with
      | .ok model => model.usings == ["System"]
      | .error _ => false) = true := by decide +kernel
  refine ⟨⟨hplain, hindent⟩, ?_⟩
  rcases Source.layers settings stamped hplain hindent with
    ⟨error, hmethod, -⟩ | ⟨model, method, cls, file, hmodel, htexts⟩
  · have hok : (methodOf settings stamped).isOk = true := by decide +kernel
    rw [hmethod] at hok
    cases hok
  · rw [hmodel] at husings
    exact ⟨model, method, cls, file, hmodel, eq_of_beq husings, htexts⟩

end TreeScribe
