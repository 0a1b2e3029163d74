import TreeScribe.Config.Basic

/-! Command lines.

Words are read from left to right. A word with a leading hyphen is an option, up to a lone `--`,
after which all words are files. An option is given at most once, and one with a value takes it
after `=` or from the next word, which must not look like an option. Asking for help or for the
version ends the reading at once, and so does the first mistake. -/
namespace TreeScribe

inductive Command where
  /-- `overrides` come before the configuration. -/
  | render (files : List String) (overrides : SettingsLayer) (output : Option String)
  | source (files : List String) (names : SourceNames) (output : Option String)
  | check (files : List String)
  | init

structure Invocation where
  /-- Colours were switched off. -/
  plain : Bool
  command : Command

/-- Why there is no command to run. -/
inductive Ending where
  | help
  | version
  | misuse
deriving DecidableEq, Repr

namespace Arguments

/-! ### Words -/

/-- What a word looks like. -/
inductive Word where
  /-- `--` -/
  | divider
  /-- `--name` or `--name=value` -/
  | long (name : String) (value : Option String)
  /-- `-n` with what follows the letter -/
  | short (letter : Char) (rest : List Char)
  | plain (text : String)
deriving DecidableEq, Repr

def Word.ofString (s : String) : Word :=
  match s.toList with
  | ['-', '-'] => .divider
  | '-' :: '-' :: cs =>
    let name := String.ofList (cs.takeWhile (· != '='))
    match cs.dropWhile (· != '=') with
    | _ :: value => .long name (some (String.ofList value))
    | [] => .long name none
  | '-' :: letter :: rest => .short letter rest
  | _ => .plain s

/-- The value written directly after a letter, if any. -/
def attached? (rest : List Char) : Option String :=
  match rest with
  | [] => none
  | '=' :: value => some (String.ofList value)
  | value => some (String.ofList value)

/-! ### Options of a command -/

/-- The options of a command, by their long names. -/
structure Grammar where
  flags : List String := ["no-color"]
  /-- Options with a value. -/
  valued : List String := []
  /-- Whether files are given, at least one. -/
  takesFiles : Bool := true

/-- What has been read. -/
structure Given where
  flags : List String := []
  values : List (String × String) := []
  files : List String := []
deriving DecidableEq, Repr

namespace Given

def has (g : Given) (flag : String) : Bool := g.flags.contains flag

def addFlag (g : Given) (flag : String) : Except Ending Given :=
  if g.has flag then throw .misuse else return { g with flags := flag :: g.flags }

/-- A path is not empty, other values may be. -/
def addValue (g : Given) (name value : String) : Except Ending Given :=
  if (g.values.lookup name).isSome || (name == "output" && value.isEmpty) then throw .misuse
  else return { g with values := (name, value) :: g.values }

def addFile (grammar : Grammar) (g : Given) (path : String) : Except Ending Given :=
  if !grammar.takesFiles || path.isEmpty then throw .misuse
  else return { g with files := g.files ++ [path] }

/-- Ends the reading of a command's words. -/
def finish (grammar : Grammar) (g : Given) : Except Ending Given :=
  if grammar.takesFiles && g.files.isEmpty then throw .misuse else return g

end Given

/-- The long name of the option that a word with a leading hyphen names, with its value. -/
def Grammar.option (grammar : Grammar) (w : Word) : Except Ending (String × Option String) :=
  match w with
  | .long "help" none => throw .help
  | .long name value =>
    if grammar.valued.contains name || (grammar.flags.contains name && value.isNone) then
      return (name, value)
    else throw .misuse
  | .short 'h' _ => throw .help
  | .short 'o' rest =>
    if grammar.valued.contains "output" then return ("output", attached? rest) else throw .misuse
  | _ => throw .misuse

/-- Reads the words of a command. -/
def Grammar.read (grammar : Grammar) (g : Given) : List String → Except Ending Given
  | [] => g.finish grammar
  | word :: words =>
    match Word.ofString word with
    | .plain path => do grammar.read (← g.addFile grammar path) words
    | .divider => do (← words.foldlM (Given.addFile grammar) g).finish grammar
    | w => do
      match ← grammar.option w with
      | (name, some value) => do grammar.read (← g.addValue name value) words
      | (name, none) =>
        if grammar.flags.contains name then do grammar.read (← g.addFlag name) words
        else
          match words with
          | [] => throw .misuse
          | value :: words =>
            match Word.ofString value with
            | .plain value => do grammar.read (← g.addValue name value) words
            | _ => throw .misuse

/-! ### Commands -/

/-- The options and the meaning of a command. -/
def command? (name : String) : Option (Grammar × (Given → Command)) :=
  match name with
  | "render" =>
    some ({ flags := ["no-color", "html", "explicit-types"], valued := ["indent", "output"] },
      fun g => .render g.files
        { choice := fun c =>
            if c = .explicitTypes && g.has "explicit-types" then some true else none
          indent := g.values.lookup "indent"
          format := if g.has "html" then some .html else none }
        (g.values.lookup "output"))
  | "source" =>
    some ({ valued := ["namespace", "class", "output"] },
      fun g => .source g.files ⟨g.values.lookup "namespace", g.values.lookup "class"⟩
        (g.values.lookup "output"))
  | "check" => some ({}, fun g => .check g.files)
  | "init" => some ({ takesFiles := false }, fun _ => .init)
  | _ => none

/-- Help is given about a command, about itself or about all of them. -/
def isTopic : List String → Bool
  | [] => true
  | [name] => name == "help" || (command? name).isSome
  | _ => false

/-- Reads the words before and after the name of a command. -/
def read (plain : Bool) : List String → Except Ending Invocation
  | [] => throw .misuse
  | word :: words =>
    match Word.ofString word with
    | .long "help" none | .short 'h' _ => throw .help
    | .plain "help" => throw (if isTopic words then .help else .misuse)
    | .long "version" none | .short 'V' _ => throw .version
    | .long "no-color" none => if plain then throw .misuse else read true words
    | .plain name =>
      match command? name with
      | none => throw .misuse
      | some (grammar, make) => do
        let given ← grammar.read {} words
        return { plain := plain || given.has "no-color", command := make given }
    | _ => throw .misuse

end Arguments

/-- The command that the words of a command line ask for. -/
def Invocation.parse (words : List String) : Except Ending Invocation := Arguments.read false words

end TreeScribe
