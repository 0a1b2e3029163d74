import TreeScribe.Render.Env
import TreeScribe.Source.Interface
import TreeScribe.Source.Name

/-! What source is asked for, and what it consists of. -/
namespace TreeScribe

/-! ### Plans -/

/-- A public method to be made from a tree. -/
structure MethodPlan where
  name : Option String := none
  summary : Option String := none
  body : Expr

structure ClassPlan where
  name : Option String := none
  interfaces : List Interface := []
  methods : List MethodPlan := []

structure SourcePlan where
  nameSpace : String := defaultNamespace
  classes : List ClassPlan := []

/-! ### Models -/

/-- Who may call a method. -/
inductive Visibility where
  | exported
  /-- Only the class itself: a method that was taken out of another. -/
  | hidden
deriving DecidableEq, Repr, Inhabited

def Visibility.text : Visibility → String
  | .exported => "public"
  | .hidden => "private"

structure MethodModel where
  name : String
  visibility : Visibility
  summary : Option String
  parameters : List Variable
  returns : TypeRef
  body : Expr

def MethodModel.returnsValue (m : MethodModel) : Bool := !m.returns.isVoid

structure ClassModel where
  name : String
  interfaces : List TypeRef
  methods : List MethodModel
  /-- The calls of blocks that became methods, by the number of the block. -/
  calls : List (Nat × ExtractedCall)

/-- The number of public methods. -/
def ClassModel.publicCount (c : ClassModel) : Nat :=
  c.methods.countP (·.visibility == .exported)

structure SourceModel where
  nameSpace : String
  usings : List String
  classes : List ClassModel

end TreeScribe
