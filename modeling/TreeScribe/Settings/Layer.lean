import TreeScribe.Json.Field
import TreeScribe.Json.Printer
import TreeScribe.Settings.Basic

/-! Layers of settings.

A layer sets some of the settings and leaves the others as they are. Layers are merged, a later
one winning, and applied to settings. -/
namespace TreeScribe

structure SettingsLayer where
  choice : Choice → Option Bool := fun _ => none
  indent : Option String := none
  format : Option Format := none

namespace SettingsLayer

/-- The settings with what the layer sets. -/
def apply (l : SettingsLayer) (s : Settings) : Settings :=
  { s with
    choice := fun c => (l.choice c).getD (s.choice c)
    indent := l.indent.getD s.indent
    format := l.format.getD s.format }

/-- Both layers in one; `upper` wins. -/
def merge (lower upper : SettingsLayer) : SettingsLayer where
  choice c := (upper.choice c).or (lower.choice c)
  indent := upper.indent.or lower.indent
  format := upper.format.or lower.format

/-! ### Stored form -/

def formatName : Format → String
  | .plain => "plain"
  | .html => "html"

def toJson (l : SettingsLayer) : Json :=
  .object (Choice.all.map (fun c => (c.name, Json.ofOption Json.bool (l.choice c))) ++
    [("indent", Json.ofOption Json.string l.indent),
      ("format", Json.ofOption (fun f => .string (formatName f)) l.format)])

/-- Reads a layer from an object; what is left out or null is not set. -/
def ofJson? (j : Json) : Option SettingsLayer := do
  let choices ← Choice.all.mapM fun c => do
    return (c, ← Json.optional? j c.name Json.asBool?)
  let indent ← Json.optional? j "indent" Json.asString?
  let format ← Json.optional? j "format" (Json.oneOf? formatName [.plain, .html])
  return { choice := fun c => (choices.lookup c).getD none, indent, format }

end SettingsLayer
end TreeScribe
