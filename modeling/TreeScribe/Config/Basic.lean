import TreeScribe.Config.Toml
import TreeScribe.Disk
import TreeScribe.Settings.Layer

/-! Configuration files.

A configuration is the first `readex.toml` from the working folder upwards, or else the one in
the home folder. It sets some settings and names; unknown keys are ignored. -/
namespace TreeScribe

/-- Names for generated source. -/
structure SourceNames where
  nameSpace : Option String := none
  className : Option String := none
deriving DecidableEq, Repr

namespace SourceNames

/-- The names, with `fallback` for those that are not set. -/
def orElse (names fallback : SourceNames) : SourceNames where
  nameSpace := names.nameSpace.or fallback.nameSpace
  className := names.className.or fallback.className

def toJson (n : SourceNames) : Json :=
  .object [("namespace", Json.ofOption Json.string n.nameSpace),
    ("class", Json.ofOption Json.string n.className)]

def ofJson? (j : Json) : Option SourceNames := do
  return ⟨← Json.optional? j "namespace" Json.asString?, ← Json.optional? j "class" Json.asString?⟩

end SourceNames

structure Config where
  settings : SettingsLayer := {}
  source : SourceNames := {}

/-- Why a configuration cannot be used. -/
inductive ConfigError where
  | unreadable (path : String) (fault : Fault)
  /-- `words` are those of the reader. -/
  | malformed (path : String) (words : String)
deriving DecidableEq, Repr

namespace ConfigError

def message : ConfigError → String
  | .unreadable path fault => "cannot read '" ++ path ++ "': " ++ fault.text
  | .malformed path words => "invalid toml in '" ++ path ++ "': " ++ words

end ConfigError

namespace Config

def fileName : String := "readex.toml"

/-- Lists every option, all commented out. -/
def template : String :=
  "# readex configuration\n" ++
  "# Options left commented out keep their defaults.\n\n" ++
  "[translation]\n" ++
  String.join (Choice.all.map fun c => "# " ++ c.name ++ " = false\n") ++
  "# indent = \"    \"\n" ++
  "# format = \"plain\"   # or \"html\"\n\n" ++
  "[source]\n" ++
  "# namespace = \"GeneratedExpressionCode\"\n" ++
  "# class = \"GeneratedExpressionClass\"\n"

def toJson (c : Config) : Json :=
  .object [("translation", c.settings.toJson), ("source", c.source.toJson)]

def ofJson? (j : Json) : Option Config := do
  let settings ← Json.defaulted? j "translation" {} SettingsLayer.ofJson?
  let source ← Json.defaulted? j "source" {} SourceNames.ofJson?
  return { settings, source }

/-- Reads the text of a configuration. -/
def parse? (text : String) : Option Config := do
  let table ← Toml.parse? text
  ofJson? table.toJson

/-- Makes a configuration of a text, or says what is wrong with the text. -/
abbrev Reader := String → Except String Config

/-- The configuration in a file. -/
def load (read : Reader) (d : Disk) (p : Place) : Except ConfigError Config := do
  let text ← (d.content p).mapError (.unreadable p.path)
  (read text).mapError (.malformed p.path)

/-- Where configurations are looked for, in order. -/
def candidates (folder : Place) (home : Option Place) : List Place :=
  folder.enclosing.map (· ++ [fileName]) ++
    home.toList.map (· ++ [".config", "readex", fileName])

/-- The first configuration there is, and where. -/
def discover (read : Reader) (d : Disk) (folder : Place) (home : Option Place) :
    Except ConfigError (Option (Place × Config)) :=
  match (candidates folder home).find? d.isFile with
  | none => return none
  | some p => do return some (p, ← load read d p)

/-- The first configuration there is, or one that sets nothing. -/
def find (read : Reader) (d : Disk) (folder : Place) (home : Option Place) : Except ConfigError Config := do
  return ((← discover read d folder home).map (·.2)).getD {}

end Config
end TreeScribe
