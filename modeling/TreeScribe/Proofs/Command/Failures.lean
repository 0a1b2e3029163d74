import TreeScribe.Command.Run
import TreeScribe.Proofs.Source.Refusals
import TreeScribe.Proofs.Tree.Stored

/-! Commands that fail.

A command that renders trees or makes a source file of them can fail in three places before it writes: its
configuration cannot be used, a file gives no tree, or no source can be built. What fails is said of the disk and
of the readers of a session, whatever they are (`Session.Misconfigured`, `Session.Unloadable`), and of the trees
on the disk (`Session.Unbuildable`), and each step of a command fails exactly then. A run that fails prints nothing
to standard output and leaves the disk as it was, and what it says names the first file that gives no tree, in
the words of the system or of the reader (`Command.leaves_nothing_of_fails`). Any other run has its whole text to
write, unless the process stops at the name of a type (`Command.emits_of_not_fails`). -/
namespace TreeScribe

/-! ### What fails -/

theorem Config.find_eq_error_iff {read : Reader} {d : Disk} {folder : Place} {home : Option Place}
    {e : ConfigError} :
    find read d folder home = .error e ↔
      ∃ p, (candidates folder home).find? d.isFile = some p ∧ load read d p = .error e := by
  rw [find, discover]
  cases (candidates folder home).find? d.isFile with
  | none =>
    constructor
    · intro h
      cases h
    · rintro ⟨p, hfound, -⟩
      cases hfound
  | some p =>
    cases hload : load read d p <;> simp [hload, bind, Except.bind, pure, Except.pure]

namespace Session

/-- The configuration that is found cannot be used, and what is said of it. -/
inductive Misconfigured (s : Session) : (message : String) → Prop where
  | unreadable {p : Place} {fault : Fault}
      (found : (Config.candidates s.folder s.home).find? s.disk.isFile = some p)
      (content : s.disk.content p = .error fault) :
      Misconfigured s ("cannot read '" ++ p.path ++ "': " ++ fault.text)
  | malformed {p : Place} {text words : String}
      (found : (Config.candidates s.folder s.home).find? s.disk.isFile = some p)
      (content : s.disk.content p = .ok text) (config : s.readers.config text = .error words) :
      Misconfigured s ("invalid toml in '" ++ p.path ++ "': " ++ words)

/-- A file gives no tree, and the diagnostic that names it. -/
inductive Unloadable (s : Session) (path : String) : Diagnostic → Prop where
  | unreadable {fault : Fault} (content : s.disk.read s.folder path = .error fault) :
      Unloadable s path { message := "cannot read '" ++ path ++ "': " ++ fault.text }
  | malformed {text words : String} (content : s.disk.read s.folder path = .ok text)
      (tree : s.readers.tree text = .error words) :
      Unloadable s path { message := "invalid expression tree JSON: " ++ words, origin := some path }

/-- Why no source can be built from the trees in some files. -/
def Unbuildable (s : Session) (files : List String) (names : SourceNames) (e : SourceError) : Prop :=
  ∃ config trees, s.config = .ok config ∧ s.loadTrees files = .ok trees ∧
    Source.file (config.settings.apply {}) (plan (names.orElse config.source) trees) = .error e

variable {s : Session} {path : String} {files : List String}

theorem misconfigured_iff {message : String} :
    s.Misconfigured message ↔ ∃ e, s.config = .error e ∧ e.message = message := by
  constructor
  · rintro (⟨hfound, hcontent⟩ | ⟨hfound, hcontent, hconfig⟩)
    · refine ⟨.unreadable _ _, Config.find_eq_error_iff.mpr ⟨_, hfound, ?_⟩, rfl⟩
      rw [Config.load, hcontent]
      rfl
    · refine ⟨.malformed _ _, Config.find_eq_error_iff.mpr ⟨_, hfound, ?_⟩, rfl⟩
      rw [Config.load, hcontent]
      exact mapError_eq_error_iff.mpr ⟨_, hconfig, rfl⟩
  · rintro ⟨e, he, rfl⟩
    obtain ⟨p, hfound, hload⟩ := Config.find_eq_error_iff.mp he
    rcases error_of_bind hload with h | ⟨text, hcontent, h⟩
    · obtain ⟨fault, hfault, rfl⟩ := mapError_eq_error_iff.mp h
      exact .unreadable hfound hfault
    · obtain ⟨words, hwords, rfl⟩ := mapError_eq_error_iff.mp h
      exact .malformed hfound (mapError_eq_ok_iff.mp hcontent) hwords

theorem unloadable_iff {d : Diagnostic} :
    s.Unloadable path d ↔ ∃ e, s.loadTree path = .error e ∧ e.diagnostic = d := by
  constructor
  · rintro (⟨hcontent⟩ | ⟨hcontent, htree⟩)
    · refine ⟨.unreadable _ _, ?_, rfl⟩
      rw [loadTree, hcontent]
      rfl
    · refine ⟨.malformed _ _, ?_, rfl⟩
      rw [loadTree, hcontent]
      exact mapError_eq_error_iff.mpr ⟨_, htree, rfl⟩
  · rintro ⟨e, he, rfl⟩
    rcases error_of_bind he with h | ⟨text, hcontent, h⟩
    · obtain ⟨fault, hfault, rfl⟩ := mapError_eq_error_iff.mp h
      exact .unreadable hfault
    · obtain ⟨words, hwords, rfl⟩ := mapError_eq_error_iff.mp h
      exact .malformed (mapError_eq_ok_iff.mp hcontent) hwords

/-- A file gives a tree if nothing is to be said of it. -/
theorem exists_tree_iff : (∃ t, s.loadTree path = .ok t) ↔ ∀ d, ¬s.Unloadable path d := by
  simp only [unloadable_iff]
  cases s.loadTree path <;> simp

/-- The first file that gives no tree decides the error. -/
theorem loadTrees_eq_error_iff (hfiles : files ≠ []) {e : CommandError} :
    s.loadTrees files = .error e ↔
      ∃ before path after, files = before ++ path :: after ∧
        (∀ p ∈ before, ∀ d, ¬s.Unloadable p d) ∧ s.loadTree path = .error e := by
  have hempty : files.isEmpty = false := List.isEmpty_eq_false_iff.mpr hfiles
  rw [loadTrees, if_neg (by simp [hempty]), mapM_eq_error_iff]
  simp only [exists_tree_iff]

/-- The first file that gives no tree decides what is said. -/
theorem exists_error_of_first {before : List String} (after : List String) {d : Diagnostic}
    (hbefore : ∀ p ∈ before, ∀ d, ¬s.Unloadable p d) (hpath : s.Unloadable path d) :
    ∃ e, s.loadTrees (before ++ path :: after) = .error e ∧ e.diagnostic = d := by
  obtain ⟨e, he, hd⟩ := unloadable_iff.mp hpath
  have hfiles : before ++ path :: after ≠ [] := List.append_ne_nil_of_right_ne_nil _ (List.cons_ne_nil _ _)
  exact ⟨e, (loadTrees_eq_error_iff hfiles).mpr ⟨before, path, after, rfl, hbefore, he⟩, hd⟩

/-- A file that gives no tree anywhere in the list is enough. -/
theorem exists_error_of_unloadable {d : Diagnostic} (hpath : path ∈ files) (h : s.Unloadable path d) :
    ∃ e, s.loadTrees files = .error e := by
  cases hload : s.loadTrees files with
  | error e => exact ⟨e, rfl⟩
  | ok trees =>
    rw [loadTrees, if_neg (by simp [List.ne_nil_of_mem hpath])] at hload
    have hall := (forall₂_of_mapM_ok hload).imp fun p t h => And.intro (Exists.intro t h) h
    have htree := ((List.forall₂_and_left _ _).mp hall).1 path hpath
    exact absurd h (exists_tree_iff.mp htree d)

theorem exists_unloadable_of_error {e : CommandError} (hfiles : files ≠ [])
    (h : s.loadTrees files = .error e) : ∃ path ∈ files, ∃ d, s.Unloadable path d := by
  obtain ⟨before, path, after, rfl, -, hpath⟩ := (loadTrees_eq_error_iff hfiles).mp h
  exact ⟨path, List.mem_append_right _ (List.mem_cons_self ..), _, unloadable_iff.mpr ⟨e, hpath, rfl⟩⟩

theorem render_eq_error_iff {settings : Settings} {e : CommandError} :
    s.render settings files = .error e ↔ s.loadTrees files = .error e := by
  rw [render]
  cases s.loadTrees files <;> simp [bind, Except.bind, pure, Except.pure]

theorem generate_eq_error_iff {settings : Settings} {names : SourceNames} {e : CommandError} :
    s.generate settings names files = .error e ↔
      s.loadTrees files = .error e ∨
        ∃ trees error, s.loadTrees files = .ok trees ∧
          Source.file settings (plan names trees) = .error error ∧ e = .source error := by
  rw [generate]
  cases s.loadTrees files with
  | error e => simp [bind, Except.bind]
  | ok trees =>
    have hinterfaces : ∀ c ∈ (plan names trees).classes, c.interfaces = [] := by simp [plan]
    simp only [reduceCtorEq, Except.ok.injEq, exists_and_left, exists_eq_left', false_or,
      ← Source.file?_eq_error_iff hinterfaces]
    cases hfile : Source.file? settings (plan names trees) with
    | none => simp [bind, Except.bind, pure, Except.pure, hfile]
    | some result => cases result <;> simp [bind, Except.bind, Except.mapError, Except.map, hfile, eq_comm]

end Session

/-! ### Runs that fail -/

section Outcomes

variable {s : Session} {coloured : Bool}

theorem Outcome.eq_refused {message : String} (h : s.Misconfigured message) (run : Config → Outcome) :
    withConfig s coloured run = refused s coloured message := by
  obtain ⟨e, he, rfl⟩ := Session.misconfigured_iff.mp h
  simp only [withConfig, he]

theorem Outcome.eq_failed {config : Config} (hconfig : s.config = .ok config) (output : Option String)
    {text : Config → Except CommandError (Option String)} {e : CommandError} (he : text config = .error e) :
    (withConfig s coloured fun config => emit s coloured output (text config)) =
      failed s (e.diagnostic.render coloured) := by
  simp only [withConfig, hconfig, he, emit]

end Outcomes

/-- A run leaves nothing if the text it is to write cannot be made, be it that the configuration cannot be
used, that the trees cannot be loaded, or that nothing can be made of them. -/
theorem Outcome.leaves_nothing {s : Session} (coloured : Bool) {files : List String}
    (output : Option String) {text : Config → Except CommandError (Option String)}
    (hload : ∀ config e, s.loadTrees files = .error e → text config = .error e)
    (h : (∃ message, s.Misconfigured message) ∨ (∃ path ∈ files, ∃ d, s.Unloadable path d) ∨
      ∃ config e, s.config = .ok config ∧ text config = .error e) :
    let outcome := withConfig s coloured fun config => emit s coloured output (text config)
    outcome.exit = 1 ∧ outcome.stdout = "" ∧ outcome.disk = s.disk ∧
      (∀ message, s.Misconfigured message →
        outcome.stderr = Diagnostic.paint coloured "31" "error:" ++ " " ++ message ++ "\n") ∧
      ∀ before path after d, (∀ message, ¬s.Misconfigured message) → files = before ++ path :: after →
        (∀ p ∈ before, ∀ d, ¬s.Unloadable p d) → s.Unloadable path d →
          outcome.stderr = d.render coloured := by
  intro outcome
  have hsaid (message : String) (hmessage : s.Misconfigured message) :
      outcome.stderr = Diagnostic.paint coloured "31" "error:" ++ " " ++ message ++ "\n" :=
    congrArg Outcome.stderr (eq_refused hmessage _)
  cases hconfig : s.config with
  | error e =>
    have hmessage := Session.misconfigured_iff.mpr ⟨e, hconfig, rfl⟩
    have houtcome : outcome = refused s coloured e.message := eq_refused hmessage _
    obtain ⟨hexit, hstdout, hdisk⟩ : outcome.exit = 1 ∧ outcome.stdout = "" ∧ outcome.disk = s.disk := by
      rw [houtcome]
      exact ⟨rfl, rfl, rfl⟩
    exact ⟨hexit, hstdout, hdisk, hsaid, fun _ _ _ _ hwell => absurd hmessage (hwell _)⟩
  | ok config =>
    have hfails : ∃ e, text config = .error e := by
      rcases h with ⟨message, hmessage⟩ | ⟨path, hpath, d, hd⟩ | ⟨config', e, hconfig', he⟩
      · obtain ⟨e, he, -⟩ := Session.misconfigured_iff.mp hmessage
        cases hconfig.symm.trans he
      · obtain ⟨e, he⟩ := Session.exists_error_of_unloadable hpath hd
        exact ⟨e, hload config e he⟩
      · cases hconfig.symm.trans hconfig'
        exact ⟨e, he⟩
    obtain ⟨e, he⟩ := hfails
    have houtcome : outcome = failed s (e.diagnostic.render coloured) := eq_failed hconfig output he
    obtain ⟨hexit, hstdout, hdisk⟩ : outcome.exit = 1 ∧ outcome.stdout = "" ∧ outcome.disk = s.disk := by
      rw [houtcome]
      exact ⟨rfl, rfl, rfl⟩
    refine ⟨hexit, hstdout, hdisk, hsaid, fun before path after d _ hfiles hbefore hpath => ?_⟩
    subst hfiles
    obtain ⟨first, hfirst, rfl⟩ := Session.exists_error_of_first after hbefore hpath
    cases he.symm.trans (hload config first hfirst)
    exact congrArg Outcome.stderr houtcome

/-- Otherwise there is a text to write, unless the process stops. -/
theorem Outcome.emits {s : Session} (coloured : Bool) (output : Option String)
    {text : Config → Except CommandError (Option String)} (hwell : ∀ message, ¬s.Misconfigured message)
    (htext : ∀ config e, s.config = .ok config → text config ≠ .error e) :
    ∃ t, (withConfig s coloured fun config => emit s coloured output (text config)) =
      emit s coloured output (.ok t) := by
  cases hconfig : s.config with
  | error e => exact absurd (Session.misconfigured_iff.mpr ⟨e, hconfig, rfl⟩) (hwell e.message)
  | ok config =>
    cases ht : text config with
    | error e => exact absurd ht (htext config e hconfig)
    | ok t =>
      refine ⟨t, ?_⟩
      simp only [withConfig, hconfig, ht]

namespace Command

/-- The files a command works on. -/
def files : Command → List String
  | .render files _ _ => files
  | .source files _ _ => files
  | .check files => files
  | .init => []

/-- The file a command writes its text to, if it does not print it. -/
def output? : Command → Option String
  | .render _ _ output => output
  | .source _ _ output => output
  | .check _ => none
  | .init => none

/-- A command that makes one text of its files. -/
def MakesText : Command → Prop
  | .render _ _ _ => True
  | .source _ _ _ => True
  | .check _ => False
  | .init => False

/-- The text cannot be made. -/
def Fails (s : Session) : Command → Prop
  | .render files _ _ =>
    (∃ message, s.Misconfigured message) ∨ ∃ path ∈ files, ∃ d, s.Unloadable path d
  | .source files names _ =>
    (∃ message, s.Misconfigured message) ∨ (∃ path ∈ files, ∃ d, s.Unloadable path d) ∨
      ∃ e, s.Unbuildable files names e
  | .check _ => False
  | .init => False

variable {s : Session} {c : Command}

/-- **A run that fails leaves nothing behind.** If the configuration cannot be used, some file gives no tree,
or no source can be built, then rendering and making a source file end with the exit code 1, print nothing to
standard output and leave every file as it was. What is said is what is wrong with the configuration; and once
there is one, it is the diagnostic of the first file that gives no tree, whatever the files after it are. -/
theorem leaves_nothing_of_fails (coloured : Bool) (h : c.Fails s) :
    (c.run s coloured).exit = 1 ∧ (c.run s coloured).stdout = "" ∧ (c.run s coloured).disk = s.disk ∧
      (∀ message, s.Misconfigured message →
        (c.run s coloured).stderr = Diagnostic.paint coloured "31" "error:" ++ " " ++ message ++ "\n") ∧
      ∀ before path after d, (∀ message, ¬s.Misconfigured message) → c.files = before ++ path :: after →
        (∀ p ∈ before, ∀ d, ¬s.Unloadable p d) → s.Unloadable path d →
          (c.run s coloured).stderr = d.render coloured := by
  cases c with
  | render files overrides output =>
    exact Outcome.leaves_nothing coloured output (fun _ _ => Session.render_eq_error_iff.mpr)
      (h.imp_right .inl)
  | source files names output =>
    refine Outcome.leaves_nothing coloured output
      (fun _ _ hload => Session.generate_eq_error_iff.mpr (.inl hload)) ?_
    refine h.imp_right (Or.imp_right ?_)
    rintro ⟨e, config, trees, hconfig, hload, hbuild⟩
    exact ⟨config, .source e, hconfig,
      Session.generate_eq_error_iff.mpr (.inr ⟨trees, e, hload, hbuild, rfl⟩)⟩
  | check files => exact h.elim
  | init => exact h.elim

/-- The first of three files is a tree, the second breaks off, and the third is not there. -/
theorem leaves_nothing_second :
    let tree : Tree := .mk () (.constant ⟨.bool true, .bool⟩)
    let disk : Disk :=
      { files := [(["first"], .ok tree.text), (["second"], .ok "["), (["out"], .ok "kept")] }
    let words := "EOF while parsing a list at line 1 column 1"
    let readers : Readers :=
      { config := fun _ => .ok {}, tree := fun text => ((Tree.parse? text).map .ok).getD (.error words) }
    let s : Session := { disk, folder := [], readers }
    let c : Command := .source ["first", "second", "third"] {} (some "out")
    c.Fails s ∧ (c.run s false).exit = 1 ∧ (c.run s false).stdout = "" ∧ (c.run s false).disk = disk ∧
      (c.run s false).stderr = "error: invalid expression tree JSON: " ++ words ++ "\n  --> second\n" := by
  intro tree disk words readers s c
  have hfound : (Config.candidates s.folder s.home).find? s.disk.isFile = none := by decide +kernel
  have hwell (message : String) : ¬s.Misconfigured message := by
    rintro (⟨found, -⟩ | ⟨found, -, -⟩) <;> cases hfound.symm.trans found
  have hread : s.disk.read s.folder "first" = .ok tree.text := rfl
  have hparse : s.readers.tree tree.text = .ok tree.erase := by
    have htext : Tree.parse? tree.text = some tree.erase :=
      Tree.parse?_text (by decide +kernel) (by decide +kernel) (by decide +kernel) (by decide +kernel)
    show ((Tree.parse? tree.text).map Except.ok).getD (.error words) = _
    rw [htext]
    rfl
  have hfirst (d : Diagnostic) : ¬s.Unloadable "first" d := by
    rintro (⟨hcontent⟩ | ⟨hcontent, htree⟩)
    · cases hread.symm.trans hcontent
    · cases hread.symm.trans hcontent
      cases hparse.symm.trans htree
  have hbroken : s.readers.tree "[" = .error words := by
    have htext : Tree.parse? "[" = none := by decide +kernel
    show ((Tree.parse? "[").map Except.ok).getD (.error words) = _
    rw [htext]
    rfl
  have hsecond : s.Unloadable "second" _ :=
    .malformed (show s.disk.read s.folder "second" = .ok "[" from rfl) hbroken
  have hfails : c.Fails s := .inr (.inl ⟨"second", by simp, _, hsecond⟩)
  obtain ⟨hexit, hstdout, hdisk, -, hstderr⟩ := leaves_nothing_of_fails false hfails
  refine ⟨hfails, hexit, hstdout, hdisk, ?_⟩
  rw [hstderr ["first"] "second" ["third"] _ hwell rfl (by simpa using hfirst) hsecond]
  decide +kernel

/-- A run of such a command that does not fail writes or prints its whole text, unless the process stops. -/
theorem emits_of_not_fails (coloured : Bool) (hmakes : c.MakesText) (hfiles : c.files ≠ [])
    (h : ¬c.Fails s) : ∃ text?, c.run s coloured = Outcome.emit s coloured c.output? (.ok text?) := by
  cases c with
  | render files overrides output =>
    refine Outcome.emits coloured output (fun e he => h (.inl ⟨e, he⟩)) fun config e hconfig he => h (.inr ?_)
    exact Session.exists_unloadable_of_error hfiles (Session.render_eq_error_iff.mp he)
  | source files names output =>
    refine Outcome.emits coloured output (fun e he => h (.inl ⟨e, he⟩)) fun config e hconfig he => h (.inr ?_)
    rcases Session.generate_eq_error_iff.mp he with hload | ⟨trees, error, hload, hbuild, -⟩
    · exact .inl (Session.exists_unloadable_of_error hfiles hload)
    · exact .inr ⟨error, config, trees, hconfig, hload, hbuild⟩
  | check files => exact hmakes.elim
  | init => exact hmakes.elim

end Command
end TreeScribe
