import TreeScribe.Text.Lines

/-! Files and folders.

A disk holds files by their place, the list of names from the top folder down. A folder exists
if it is listed or if something lies in it. Paths are texts with names between slashes, and lead
to a place only through folders. -/
namespace TreeScribe

/-- Names from the top folder down. -/
abbrev Place := List String

namespace Place

/-- The path from the top. -/
def path (p : Place) : String := "/" ++ "/".intercalate p

/-- The place itself and the folders around it, from the inside out. -/
def enclosing (p : Place) : List Place := (List.range (p.length + 1)).reverse.map p.take

/-- Follows one name of a path. -/
def enter (p : Place) (name : String) : Place :=
  if name == "" || name == "." then p
  else if name == ".." then p.dropLast
  else p ++ [name]

/-- Where a path starts when it is used in a folder: a leading slash means the top. -/
def start (folder : Place) (path : String) : Place :=
  if path.toList.head? == some '/' then [] else folder

/-- The names in a path. -/
def names (path : String) : List String := (Text.splitOn '/' path.toList).map String.ofList

end Place

/-- Why a file is not read or written, as the system says it. -/
inductive Fault where
  /-- Nothing is there. -/
  | missing
  /-- A path leads on from a file. -/
  | notFolder
  | isFolder
  /-- Anything else: a file that may not be read, or one whose bytes are no text. -/
  | other (words : String)
deriving DecidableEq, Repr

def Fault.text : Fault → String
  | .missing => "No such file or directory (os error 2)"
  | .notFolder => "Not a directory (os error 20)"
  | .isFolder => "Is a directory (os error 21)"
  | .other words => words

structure Disk where
  /-- The files, each with its text or with what keeps it from being read. -/
  files : List (Place × Except Fault String) := []
  folders : List Place := []

namespace Disk

def isFile (d : Disk) (p : Place) : Bool := d.files.any (·.1 == p)

def isFolder (d : Disk) (p : Place) : Bool :=
  p.isEmpty || d.folders.any (p.isPrefixOf ·) ||
    d.files.any fun file => p.isPrefixOf file.1 && file.1 != p

/-- Something is there. -/
def holds (d : Disk) (p : Place) : Bool := d.isFile p || d.isFolder p

/-- The text of the file at a place. -/
def content (d : Disk) (p : Place) : Except Fault String :=
  match d.files.lookup p with
  | some content => content
  | none => throw (if d.isFolder p then .isFolder else .missing)

/-- Follows one name of a path, which leads on from a folder only. -/
def enter (d : Disk) (p : Place) (name : String) : Except Fault Place :=
  if d.isFolder p then return p.enter name
  else throw (if d.isFile p then .notFolder else .missing)

/-- The place that a path leads to when it is used in a folder. -/
def locate (d : Disk) (folder : Place) (path : String) : Except Fault Place :=
  (Place.names path).foldlM d.enter (folder.start path)

/-- The text of the file that a path leads to. -/
def read (d : Disk) (folder : Place) (path : String) : Except Fault String := do
  d.content (← d.locate folder path)

/-- The disk with a text in a file, made or replaced. -/
def put (d : Disk) (p : Place) (text : String) : Disk :=
  { d with files := (p, .ok text) :: d.files.filter (·.1 != p) }

/-- Writes a text to the file that a path leads to, unless a folder is there. -/
def write (d : Disk) (folder : Place) (path text : String) : Except Fault Disk := do
  let p ← d.locate folder path
  if d.isFolder p then throw .isFolder else return d.put p text

end Disk
end TreeScribe
