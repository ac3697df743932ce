import Determinization.FileAccess
import Determinization.OrderedMap

/-!
# Folders and files

A volume is a tree of folders and files with a working folder.  A path is a text that leads
from the top, if it begins with a slash, or else from the working folder, through folders to a
file.

**Faults.** A path leads through one name after the other, and the first name that cannot be
passed decides: it is missing, too long, or that of a file where a folder is needed.  A folder is
no file, and a path to be written must not end with a slash.  A path with the character zero is
refused before it is followed.

**Writing.** A written file replaces the file at its place or is new there; nothing else changes.
-/

namespace Determinization

/-- A place in the tree: the names on the way from the top. -/
abbrev Place := List String

/-- What stands at a place. -/
inductive Node
  | folder
  | file (bytes : List UInt8)
  deriving DecidableEq

/-- A tree of folders and files; the top folder itself is not listed. -/
structure Volume where
  nodes : OrderedMap Place Node
  workingFolder : Place
  deriving DecidableEq

/-- The parts of a path: where it starts, its names, and whether a slash stands at its end. -/
structure PathParts where
  fromTop : Bool
  names : List String
  slashAtEnd : Bool
  deriving DecidableEq

namespace PathParts

def ofString (path : String) : PathParts :=
  let text := path.toList
  { fromTop := text.head? == some '/'
    names := ((text.splitOnP (· == '/')).filter fun name => !name.isEmpty).map String.ofList
    slashAtEnd := text.getLast? == some '/' }

end PathParts

/-- The number of bytes that a path may have. -/
def maxPathBytes : Nat := 4095

/-- The number of bytes that a name may have. -/
def maxNameBytes : Nat := 255

/-- The places on the way to a place below the top, the place itself included. -/
def Place.upTo (place : Place) : List Place :=
  (List.range place.length).map fun n => place.take (n + 1)

namespace Volume

/-- An empty tree whose working folder stands at a place. -/
def empty (workingFolder : Place) : Volume where
  nodes := OrderedMap.ofList ((Place.upTo workingFolder).map fun place => (place, Node.folder))
  workingFolder := workingFolder

/-- What stands at a place. -/
def node?
    (v : Volume)
    (place : Place) :
    Option Node :=
  if place = [] then some .folder else v.nodes.get? place

/-- The tree with a node put at a place. -/
def put
    (v : Volume)
    (place : Place)
    (node : Node) :
    Volume :=
  { v with nodes := v.nodes.insert place node }

/-- The tree with a folder at a place, and folders on the way there. -/
def addFolder
    (v : Volume)
    (place : Place) :
    Volume :=
  (Place.upTo place).foldl (fun v folder => v.put folder .folder) v

/-- The tree with a file at a place, and folders on the way there. -/
def addFile
    (v : Volume)
    (place : Place)
    (bytes : List UInt8) :
    Volume :=
  (v.addFolder place.dropLast).put place (.file bytes)

/-- The place to which a name leads from a folder. -/
def step
    (folder : Place)
    (name : String) :
    Except PathFault Place :=
  if maxNameBytes < name.utf8ByteSize then
    .error (.system .tooLong)
  else if name = "." then
    .ok folder
  else if name = ".." then
    .ok folder.dropLast
  else
    .ok (folder ++ [name])

/-- Go from a folder through names that have to be those of folders. -/
def enter
    (v : Volume) :
    Place → List String → Except PathFault Place
  | folder, [] => .ok folder
  | folder, name :: names => do
      let next ← step folder name
      match v.node? next with
      | some .folder => v.enter next names
      | some (.file _) => .error (.system .notFolder)
      | none => .error (.system .notFound)

/-- Where a path ends: the folder, the last name, and whether a slash follows it. -/
structure PathEnd where
  folder : Place
  name : String
  slashAtEnd : Bool

/-- Follow a path up to its last name. -/
def follow
    (v : Volume)
    (path : String) :
    Except PathFault PathEnd := do
  let parts := PathParts.ofString path
  if path.isEmpty then
    .error (.system .notFound)
  else if hasNull path then
    .error .nullCharacter
  else if maxPathBytes < path.utf8ByteSize then
    .error (.system .tooLong)
  else
    match parts.names.getLast? with
    | none => .error (.system .isFolder)
    | some name =>
        let start := if parts.fromTop then [] else v.workingFolder
        let folder ← v.enter start parts.names.dropLast
        return ⟨folder, name, parts.slashAtEnd⟩

def readFile
    (v : Volume)
    (path : String) :
    Except PathFault (List UInt8) := do
  let pathEnd ← v.follow path
  let place ← step pathEnd.folder pathEnd.name
  match v.node? place with
  | none => .error (.system .notFound)
  | some .folder => .error (.system .isFolder)
  | some (.file bytes) => if pathEnd.slashAtEnd then .error (.system .notFolder) else .ok bytes

/-- The place of the file that is written under a path. -/
def placeToWrite
    (v : Volume)
    (path : String) :
    Except PathFault Place := do
  let pathEnd ← v.follow path
  if pathEnd.slashAtEnd then
    .error (.system .isFolder)
  else
    let place ← step pathEnd.folder pathEnd.name
    match v.node? place with
    | some .folder => .error (.system .isFolder)
    | some (.file _) => .ok place
    | none => .ok place

def writeFile
    (v : Volume)
    (path : String)
    (bytes : List UInt8) :
    Except PathFault Volume := do
  let place ← v.placeToWrite path
  return v.put place (.file bytes)

/-- The files of a volume, which is what a write changes. -/
def access : FileAccess (StateM Volume) where
  readFile path := fun v => (v.readFile path, v)
  writeFile path bytes := fun v =>
    match v.writeFile path bytes with
    | .error f => (.error f, v)
    | .ok after => (.ok (), after)

structure FileEntry where
  place : Place
  bytes : List UInt8
  deriving DecidableEq

/-- The files of a tree, in the order in which they were put there. -/
def files (v : Volume) : List FileEntry :=
  v.nodes.entries.filterMap fun entry =>
    match entry.2 with
    | .folder => none
    | .file bytes => some ⟨entry.1, bytes⟩

/-- The files of a later tree that are new or have other bytes than before. -/
def changes (before after : Volume) : List FileEntry :=
  after.files.filter fun f => !decide (before.node? f.place = some (.file f.bytes))

end Volume

end Determinization
