import TreeScribe.Command.Arguments
import TreeScribe.Command.Session

/-! Running commands.

A command reads a disk and leaves one, with a text for each output stream and an exit code. It
writes only after all its work is done, so that a run that fails leaves the disk as it was and
prints nothing to standard output, except for `check`, which reports file by file. -/
namespace TreeScribe

/-- What a run of a command leaves. -/
structure Outcome where
  exit : Nat := 0
  stdout : String := ""
  stderr : String := ""
  disk : Disk

namespace Outcome

/-- Fails with a message. -/
def failed (s : Session) (message : String) : Outcome :=
  { exit := 1, stderr := message, disk := s.disk }

/-- Fails with a message that has no code and no help. -/
def refused (s : Session) (coloured : Bool) (message : String) : Outcome :=
  failed s (Diagnostic.paint coloured "31" "error:" ++ " " ++ message ++ "\n")

/-- Stops half-way, at a sum that is no word. -/
def stopped (s : Session) : Outcome :=
  { exit := 101, stderr := "attempt to add with overflow\n", disk := s.disk }

/-- A word before a path, in twelve columns. -/
def label (coloured : Bool) (word : String) : String :=
  Diagnostic.paint coloured "1;32" ("".pushn ' ' (12 - word.length) ++ word)

/-- Writes a finished text to its file or prints it. -/
def emit (s : Session) (coloured : Bool) (output : Option String)
    (result : Except CommandError (Option String)) : Outcome :=
  match result with
  | .error e => failed s (e.diagnostic.render coloured)
  | .ok none => stopped s
  | .ok (some text) =>
    match output with
    | none => { stdout := text ++ "\n", disk := s.disk }
    | some path =>
      match s.disk.write s.folder path (text ++ "\n") with
      | .error fault => refused s coloured ("writing to '" ++ path ++ "': " ++ fault.text)
      | .ok disk => { stderr := label coloured "Wrote" ++ " " ++ path ++ "\n", disk }

/-- Goes on with the configuration, if it can be used. -/
def withConfig (s : Session) (coloured : Bool) (run : Config → Outcome) : Outcome :=
  match s.config with
  | .error e => refused s coloured e.message
  | .ok config => run config

def render (s : Session) (coloured : Bool) (files : List String) (overrides : SettingsLayer)
    (output : Option String) : Outcome :=
  withConfig s coloured fun config =>
    emit s coloured output (s.render ((config.settings.merge overrides).apply {}) files)

def source (s : Session) (coloured : Bool) (files : List String) (names : SourceNames)
    (output : Option String) : Outcome :=
  withConfig s coloured fun config =>
    emit s coloured output
      (s.generate (config.settings.apply {}) (names.orElse config.source) files)

def check (s : Session) (coloured : Bool) (files : List String) : Outcome :=
  let results := s.check files
  let passed := results.filterMap fun
    | (path, none) =>
      some (Diagnostic.paint coloured "32" "✓" ++ " " ++ Diagnostic.paint coloured "1" path ++ "\n")
    | (_, some _) => none
  let faults := results.filterMap (·.2)
  { exit := if faults.isEmpty then 0 else 1
    stdout := String.join passed
    stderr := String.join (faults.map fun e => e.diagnostic.render coloured)
    disk := s.disk }

/-- Writes a configuration file, unless there is one. -/
def init (s : Session) (coloured : Bool) : Outcome :=
  if s.disk.holds (s.folder ++ [Config.fileName]) then
    let warning : Diagnostic := {
      severity := .warning
      message := Config.fileName ++ " already exists, not overwriting"
      origin := some Config.fileName
      help := ["edit the existing file or remove it first"] }
    failed s (warning.render coloured)
  else
    match s.disk.write s.folder Config.fileName Config.template with
    | .error fault => refused s coloured ("writing " ++ Config.fileName ++ ": " ++ fault.text)
    | .ok disk =>
      { stdout := label coloured "Created" ++ " " ++ Config.fileName ++ " " ++
          Diagnostic.paint coloured "90" "(all options commented out)" ++ "\n"
        disk }

end Outcome

namespace Command

def run (s : Session) (coloured : Bool) : Command → Outcome
  | .render files overrides output => .render s coloured files overrides output
  | .source files names output => .source s coloured files names output
  | .check files => .check s coloured files
  | .init => .init s coloured

end Command

/-- What the program prints about itself. -/
def Ending.outcome (s : Session) : Ending → Outcome
  | .version => { stdout := "readex 0.3.0\n", disk := s.disk }
  | .help => { stdout := usage, disk := s.disk }
  | .misuse => { exit := 2, stderr := usage, disk := s.disk }
where
  usage := "Usage: readex [--no-color] <render|source|check|init> [OPTIONS] [FILES]...\n"

/-- Runs the program on the words of its command line. Colours are used unless they are switched
off there or in the environment. -/
def runProgram (s : Session) (plainEnvironment : Bool) (words : List String) : Outcome :=
  match Invocation.parse words with
  | .error ending => ending.outcome s
  | .ok invocation => invocation.command.run s (!(invocation.plain || plainEnvironment))

end TreeScribe
