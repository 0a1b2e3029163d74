import TreeScribe.Config.Basic
import TreeScribe.Diagnostic
import TreeScribe.Source.Build
import TreeScribe.Tree.Stored

/-! Work on files of trees.

All trees are loaded before anything is made of them, and the first file that cannot be loaded
decides the error. How texts are read is left open: a session brings its readers along. -/
namespace TreeScribe

/-- Why a command cannot do its work. -/
inductive CommandError where
  | unreadable (path : String) (fault : Fault)
  /-- The file does not hold a tree. `words` are those of the reader. -/
  | malformed (path : String) (words : String)
  | source (e : SourceError)
  | noInput
deriving DecidableEq, Repr

namespace CommandError

/-- What is said about a file that holds no tree, apart from its path. -/
def notATree (words : String) : String := "invalid expression tree JSON: " ++ words

def message : CommandError → String
  | .unreadable path fault => "cannot read '" ++ path ++ "': " ++ fault.text
  | .malformed path words => path ++ ": " ++ notATree words
  | .source e => e.message
  | .noInput => "no input files specified"

def diagnostic : CommandError → Diagnostic
  | .source e => e.diagnostic
  | .malformed path words => { message := notATree words, origin := some path }
  | e => { message := e.message }

end CommandError

/-- What makes values of the texts of files, or says what is wrong with a text. -/
structure Readers where
  config : Config.Reader
  tree : String → Except String Tree

/-- The readers of the program. They do not say where in a text the mistake is. -/
def Readers.standard : Readers where
  config text :=
    match Config.parse? text with
    | some config => .ok config
    | none => .error "it does not describe a configuration"
  tree text :=
    match Tree.parse? text with
    | some tree => .ok tree
    | none => .error "it does not describe a tree"

/-- The surroundings of a command. -/
structure Session where
  disk : Disk
  /-- The working folder. -/
  folder : Place
  home : Option Place := none
  readers : Readers := .standard

namespace Session

def config (s : Session) : Except ConfigError Config :=
  Config.find s.readers.config s.disk s.folder s.home

def loadTree (s : Session) (path : String) : Except CommandError Tree := do
  let text ← (s.disk.read s.folder path).mapError (.unreadable path)
  (s.readers.tree text).mapError (.malformed path)

def loadTrees (s : Session) (paths : List String) : Except CommandError (List Tree) :=
  if paths.isEmpty then throw .noInput else paths.mapM s.loadTree

/-- The trees as text, a blank line between them, unless the process stops. -/
def render (s : Session) (settings : Settings) (paths : List String) :
    Except CommandError (Option String) := do
  let trees ← s.loadTrees paths
  let rendered? := trees.mapM fun t => Rendered.ofExpr? settings (t.number.run 0).1
  return rendered?.map fun rendered => "\n\n".intercalate (rendered.map (·.text))

/-- A source file with one class and in it a method for each tree. -/
def plan (names : SourceNames) (trees : List Tree) : SourcePlan :=
  let bodies := ((trees.mapM Tree.number).run 0).1
  { nameSpace := names.nameSpace.getD defaultNamespace
    classes := [{ name := names.className, methods := bodies.map fun body => { body } }] }

/-- The text of the source file for the trees, unless the process stops. -/
def generate (s : Session) (settings : Settings) (names : SourceNames) (paths : List String) :
    Except CommandError (Option String) := do
  let trees ← s.loadTrees paths
  match Source.file? settings (plan names trees) with
  | none => return none
  | some result => (result.mapError .source).map some

/-- What is wrong with each file, if anything. -/
def check (s : Session) (paths : List String) : List (String × Option CommandError) :=
  paths.map fun path =>
    match s.loadTree path with
    | .ok _ => (path, none)
    | .error e => (path, some e)

end Session
end TreeScribe
