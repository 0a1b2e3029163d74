import TreeScribe.Command.Run

/-! The program.

It looks at the files that its command line mentions and at those that may hold a configuration,
runs the command on what it saw, and then writes and prints what that leaves. -/
namespace TreeScribe.Program

/-- Adds what is at a place to a disk. -/
def observe (d : Disk) (p : Place) : IO Disk := do
  let path := (← IO.currentDir) / p.path
  if ← path.isDir then
    return { d with folders := p :: d.folders }
  else if ← path.pathExists then
    let content ← try Except.ok <$> IO.FS.readFile path catch e => pure (.error (.other (toString e)))
    return { d with files := (p, content) :: d.files }
  else
    return d

/-- Adds all that a path leads through. -/
def follow (folder : Place) (d : Disk) (path : String) : IO Disk := do
  let mut disk := d
  let mut place := folder.start path
  for name in Place.names path do
    disk ← observe disk place
    place := place.enter name
  observe disk place

/-- The paths that a command reads or writes. -/
def paths : Command → List String
  | .render files _ output => files ++ output.toList
  | .source files _ output => files ++ output.toList
  | .check files => files
  | .init => [Config.fileName]

/-- Writes the files that differ from those that were there before. -/
def save (before after : Disk) : IO Unit := do
  for (place, content) in after.files do
    match before.content place, content with
    | .ok old, .ok text => if old != text then IO.FS.writeFile place.path text
    | .error _, .ok text => IO.FS.writeFile place.path text
    | _, .error _ => pure ()

end TreeScribe.Program

open TreeScribe in
def main (words : List String) : IO UInt32 := do
  let folder := (Place.names (← IO.currentDir).toString).foldl Place.enter []
  let home := (← IO.getEnv "HOME").map fun path => (Place.names path).foldl Place.enter []
  let mentioned :=
    match Invocation.parse words with
    | .ok invocation => Program.paths invocation.command
    | .error _ => []
  let mut disk : Disk := {}
  for path in mentioned ++ (Config.candidates folder home).map Place.path do
    disk ← Program.follow folder disk path
  let outcome := runProgram { disk, folder, home } (← IO.getEnv "NO_COLOR").isSome words
  try
    Program.save disk outcome.disk
  catch e =>
    IO.eprintln ("error: " ++ toString e)
    return 1
  IO.print outcome.stdout
  IO.eprint outcome.stderr
  return outcome.exit.toUInt32
