import TreeScribe.Source.Build

/-! What a style decides.

Of the settings, the visit and the built-in renderers read the choices of style and the namer of
anonymous types, and nothing else. Settings of one style give the same analysis, and where custom
renderers make the same of a node, so do the positions in which it stands. -/
namespace TreeScribe

/-- Other settings in the style of `s`. -/
def Settings.inStyle (t s : Settings) : Settings :=
  { t with choice := s.choice, anonymousNamer := s.anonymousNamer }

/-! ### The visit -/

namespace Visit

variable (t s : Settings)

theorem arguments_inStyle (children : List Child) (ps : List ParameterInfo) :
    arguments (t.inStyle s) children ps = arguments s children ps := by
  induction children generalizing ps with
  | nil => rfl
  | cons c children ih =>
    cases ps with
    | nil =>
      rw [arguments, arguments, ih]
      rfl
    | cons p ps =>
      rw [arguments, arguments, ih]
      rfl

theorem value_inStyle (node : Nat) (f : Form Child) :
    value (t.inStyle s) node f = value s node f := by
  cases f with
  | call receiver method args =>
    simp only [value, call, arguments_inStyle]
    rfl
  | new creation =>
    simp only [value, arguments_inStyle]
    rfl
  | _ => rfl

theorem form_inStyle (node : Nat) (f : Form Child) : form (t.inStyle s) node f = form s node f := by
  have hvalue := value_inStyle t s node f
  funext position
  cases position with
  | value => exact hvalue
  | statement => cases f <;> first | exact hvalue | rfl
  | returning =>
    cases f with
    | conditional test ifTrue ifFalse ty => simp only [form, returning, hvalue]
    | _ => first | exact hvalue | rfl

theorem run_inStyle (mode : AnalysisMode) (e : Expr) (position : Position) :
    run (t.inStyle s) mode e position = run s mode e position := by
  have htree : tree (t.inStyle s) = tree s := congrArg Node.para (funext fun node => funext (form_inStyle t s node))
  unfold run
  rw [htree]
  rfl

end Visit

namespace Analysis

variable (t s : Settings)

theorem ofExpression_inStyle (e : Expr) : ofExpression (t.inStyle s) e = ofExpression s e :=
  Visit.run_inStyle t s ..

theorem ofMethodBody_inStyle (e : Expr) (returns : Bool) :
    ofMethodBody (t.inStyle s) e returns = ofMethodBody s e returns :=
  Visit.run_inStyle t s ..

end Analysis

/-! ### Source -/

section Source

variable (t s : Settings)

theorem ClassPlan.build_inStyle (c : ClassPlan) (name : String) :
    c.build (t.inStyle s) name = c.build s name := by
  unfold build
  simp only [Analysis.ofMethodBody_inStyle]
  rfl

/-- The custom renderers are not asked before all names are settled. -/
theorem SourcePlan.build_inStyle (p : SourcePlan) : p.build (t.inStyle s) = p.build s := by
  unfold build
  simp only [ClassPlan.build_inStyle]

end Source

/-! ### Rendering -/

/-- The same with other settings of the same style. -/
def Env.restyled (env : Env) (t : Settings) : Env :=
  { env with settings := t.inStyle env.settings }

namespace Render

variable (env : Env) (t : Settings)

theorem arguments_restyled (cs : List Child) (ps : List ParameterInfo) :
    arguments (env.restyled t) cs ps = arguments env cs ps := by
  induction cs generalizing ps with
  | nil => rfl
  | cons c cs ih =>
    cases ps with
    | nil =>
      rw [arguments, arguments, ih]
      rfl
    | cons p ps =>
      rw [arguments, arguments, ih]
      rfl

theorem argumentList_restyled : argumentList (env.restyled t) = argumentList env := by
  funext cs ps
  rw [argumentList, argumentList, arguments_restyled]

theorem callAtoms_restyled : callAtoms (env.restyled t) = callAtoms env := by
  have hmethod : methodCall (env.restyled t) = methodCall env := by
    funext subject m args ps
    rw [methodCall, methodCall, argumentList_restyled]
    rfl
  funext subject m args ps
  rw [callAtoms, callAtoms, hmethod]

theorem filled_restyled : filled (env.restyled t) = filled env := by
  have hnew : newAtoms (env.restyled t) = newAtoms env := by
    funext creation
    rw [newAtoms, newAtoms, argumentList_restyled]
    rfl
  funext creation items
  rw [filled, filled, hnew]

theorem builtIn_restyled (node : Nat) (f : Form Child) :
    builtIn (env.restyled t) node f = builtIn env node f := by
  cases f with
  | call receiver method args =>
    simp only [builtIn, call, callAtoms_restyled]
    rfl
  | new creation =>
    simp only [builtIn, new, argumentList_restyled]
    rfl
  | invoke target args ty => simp only [builtIn, invoke, argumentList_restyled]
  | memberInit creation bindings => simp only [builtIn, memberInit, filled_restyled]
  | listInit creation items => simp only [builtIn, listInit, filled_restyled]
  | _ => rfl

variable {env t} {node : Nat} {f : Form Child}
  (hcustom : custom? (env.restyled t) node f = custom? env node f)
include hcustom

theorem asValue_restyled : asValue (env.restyled t) node f = asValue env node f := by
  rw [asValue, asValue, hcustom, builtIn_restyled]

theorem asStatement_restyled : asStatement (env.restyled t) node f = asStatement env node f := by
  have hvalue := asValue_restyled hcustom
  unfold asStatement
  rw [hcustom]
  cases f with
  | block | conditional => rfl
  | _ => simp only [hvalue]

theorem asReturning_restyled : asReturning (env.restyled t) node f = asReturning env node f := by
  have hvalue := asValue_restyled hcustom
  unfold asReturning
  rw [hcustom]
  cases f with
  | block | switch | «try» | label => rfl
  | _ => simp only [hvalue]

/-- Where custom renderers make the same of a node, all that differs is perhaps the body that is
made of it. -/
theorem renderer_restyled :
    renderer (env.restyled t) node f =
      { renderer env node f with body := asBody (env.restyled t) node f } := by
  have hvalue := asValue_restyled hcustom
  have hstatement := asStatement_restyled hcustom
  have hreturning := asReturning_restyled hcustom
  have hchained : asChained (env.restyled t) node f = asChained env node f := by
    cases f <;> first | rfl | exact funext fun _ => hstatement
  have hlanding : asLanding (env.restyled t) node f = asLanding env node f := by
    cases f <;> first | rfl | exact funext fun _ => hreturning
  rw [renderer, renderer, hvalue, hstatement, hreturning, hchained, hlanding]
  rfl

/-- The body is the same if blocks have custom renderers in both or in neither. -/
theorem asBody_restyled
    (hblock : (t.custom? .block).isNone = (env.settings.custom? .block).isNone) :
    asBody (env.restyled t) node f = asBody env node f := by
  have hblock : ((env.restyled t).settings.custom? .block).isNone =
      (env.settings.custom? .block).isNone := hblock
  funext returns
  unfold asBody
  rw [asStatement_restyled hcustom, asReturning_restyled hcustom, hblock]
  cases f <;> rfl

end Render
end TreeScribe
