import TreeScribe.Command.Run

/-! Layers on top of each other.

A setting takes the value of the topmost layer that sets it, and keeps its own where none does. Settings and
layers are decided by their values, setting by setting, so that it is the same to merge layers first and to
apply them one after the other, and it does not matter how layers are grouped when they are merged
(`SettingsLayer.layered`). -/
namespace TreeScribe

/-- What a layer can set. -/
inductive Setting where
  | choice (c : Choice)
  | indent
  | format
deriving DecidableEq, Repr

def Setting.Value : Setting → Type
  | .choice _ => Bool
  | .indent => String
  | .format => Format

namespace Settings

def value (s : Settings) : (f : Setting) → f.Value
  | .choice c => s.choice c
  | .indent => s.indent
  | .format => s.format

/-- Settings are decided by their values, the namer of anonymous types and the custom renderers. -/
theorem ext_value {s t : Settings} (hvalue : ∀ f, s.value f = t.value f)
    (hnamer : s.anonymousNamer = t.anonymousNamer) (hcustom : s.custom = t.custom) : s = t := by
  obtain ⟨choice, indent, format, namer, custom⟩ := s
  obtain rfl : choice = t.choice := funext fun c => hvalue (.choice c)
  obtain rfl : indent = t.indent := hvalue .indent
  obtain rfl : format = t.format := hvalue .format
  obtain rfl : namer = t.anonymousNamer := hnamer
  obtain rfl : custom = t.custom := hcustom
  rfl

end Settings

namespace SettingsLayer

/-- The value that a layer sets, if it sets any. -/
def value? (l : SettingsLayer) : (f : Setting) → Option f.Value
  | .choice c => l.choice c
  | .indent => l.indent
  | .format => l.format

theorem ext_value {l l' : SettingsLayer} (h : ∀ f, l.value? f = l'.value? f) : l = l' := by
  obtain ⟨choice, indent, format⟩ := l
  obtain rfl : choice = l'.choice := funext fun c => h (.choice c)
  obtain rfl : indent = l'.indent := h .indent
  obtain rfl : format = l'.format := h .format
  rfl

@[simp] theorem value?_empty (f : Setting) : ({} : SettingsLayer).value? f = none := by
  cases f <;> rfl

/-- A value that is not set stays. -/
theorem value_apply (l : SettingsLayer) (s : Settings) (f : Setting) :
    (l.apply s).value f = (l.value? f).getD (s.value f) := by
  cases f <;> rfl

/-- The upper layer wins. -/
theorem value?_merge (lower upper : SettingsLayer) (f : Setting) :
    (lower.merge upper).value? f = (upper.value? f).or (lower.value? f) := by
  cases f <;> rfl

theorem apply_merge (lower upper : SettingsLayer) (s : Settings) :
    (lower.merge upper).apply s = upper.apply (lower.apply s) := by
  refine Settings.ext_value (fun f => ?_) rfl rfl
  rw [value_apply, value_apply, value_apply, value?_merge, Option.getD_or]

theorem merge_assoc (a b c : SettingsLayer) : (a.merge b).merge c = a.merge (b.merge c) := by
  refine ext_value fun f => ?_
  rw [value?_merge, value?_merge, value?_merge, value?_merge, Option.or_assoc]

theorem empty_merge (l : SettingsLayer) : ({} : SettingsLayer).merge l = l := by
  refine ext_value fun f => ?_
  rw [value?_merge, value?_empty, Option.or_none]

theorem merge_empty (l : SettingsLayer) : l.merge {} = l := by
  refine ext_value fun f => ?_
  rw [value?_merge, value?_empty, Option.none_or]

/-- **Layers compose.** Merged layers apply one after the other, merging is associative, and a layer that sets
nothing adds nothing on either side. Of the settings a layer changes what it sets and nothing else, so that
trees are rendered with the defaults, what the configuration sets on top of them, and what the command line
sets on top of that. -/
theorem layered (a b c : SettingsLayer) (s : Settings) :
    (a.merge b).apply s = b.apply (a.apply s) ∧
    (a.merge b).merge c = a.merge (b.merge c) ∧
    (({} : SettingsLayer).merge a = a ∧ a.merge {} = a) ∧
    ((∀ f, (a.apply s).value f = (a.value? f).getD (s.value f)) ∧
      (a.apply s).anonymousNamer = s.anonymousNamer ∧ (a.apply s).custom = s.custom) ∧
    ∀ (session : Session) (coloured : Bool) (files : List String) (output : Option String),
      Outcome.render session coloured files b output =
        Outcome.withConfig session coloured fun config =>
          Outcome.emit session coloured output
            (session.render (b.apply (config.settings.apply {})) files) := by
  refine ⟨apply_merge a b s, merge_assoc a b c, ⟨empty_merge a, merge_empty a⟩,
    ⟨value_apply a s, rfl, rfl⟩, fun session coloured files output => ?_⟩
  rw [Outcome.render]
  simp only [apply_merge]

end SettingsLayer
end TreeScribe
