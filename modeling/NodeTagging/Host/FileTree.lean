import NodeTagging.Host.Failure
import NodeTagging.Path
import NodeTagging.Table

/-!
# File trees

A file tree in memory: what is at each *location*, the list of steps that leads there from the top.
The top is always a directory. The operations behave as those of a POSIX file system: each either
gives the tree afterwards or is refused, and then nothing has changed.
-/

namespace NodeTagging

/-- The steps from the top of a tree to a place in it. -/
abbrev Location := List String

/-- What is at a location. -/
inductive FileNode where
  /-- A directory. -/
  | directory
  /-- A file with its text. -/
  | file (text : String)
deriving DecidableEq, Repr

/-- A file tree. -/
structure FileTree where
  /-- What is at each location but the top. -/
  nodes : Table Location FileNode
deriving DecidableEq, Repr

namespace FileTree

/-- The tree with nothing but its top. -/
def empty : FileTree := ⟨.empty⟩

instance : Inhabited FileTree := ⟨empty⟩

variable (t : FileTree)

/-! ### Looking -/

/-- What is at a location. -/
def node? (place : Location) : Option FileNode :=
  if place = [] then some .directory else t.nodes.get? place

/-- The text of the file at a location. -/
def text? (place : Location) : Option String :=
  match t.node? place with
  | some (.file text) => some text
  | _ => none

/-- The locations above a location, from the top down. -/
def above (place : Location) : List Location :=
  (List.range place.length).map place.take

/-- Whether a file stands in the way to a location. -/
def isBlocked (place : Location) : Bool :=
  (above place).any fun p => (t.text? p).isSome

/-- Whether a location is a directory with something in it. -/
def hasEntries (place : Location) : Bool :=
  t.nodes.keys.any fun p => place.isPrefixOf p && place ≠ p

/-- The files with their texts. -/
def files : List (Location × String) :=
  t.nodes.entries.filterMap fun e =>
    match e.2 with
    | .file text => some (e.1, text)
    | .directory => none

/-! ### Changing -/

/-- The tree with something put at a location other than the top. -/
def put (place : Location) (node : FileNode) : FileTree :=
  if place = [] then t else ⟨t.nodes.insert place node⟩

/-- The tree with directories at the given locations, as far as nothing is there. -/
def fill (places : List Location) : FileTree :=
  places.foldl (fun t p => if (t.node? p).isSome then t else t.put p .directory) t

/-- The tree without what is at a location and below it. -/
def prune (place : Location) : FileTree :=
  ⟨t.nodes.filterKeys fun p => !place.isPrefixOf p⟩

/-- The tree with a file at a location and directories on the way to it. -/
def store (place : Location) (text : String) : FileTree :=
  (t.fill (above place)).put place (.file text)

/-- The tree with a directory at a location and directories on the way to it. -/
def storeDirectory (place : Location) : FileTree :=
  t.fill (above place ++ [place])

/-- The tree with everything at and below a location moved to another one. -/
def move (source target : Location) : FileTree :=
  (t.nodes.entries.filter fun e => source.isPrefixOf e.1).foldl
    (fun t e => t.put (target ++ e.1.drop source.length) e.2) (t.prune source)

/-! ### Operations -/

section Operations

variable (workingDirectory : String)

/-- Whether there is a file or a directory at a path. -/
def isPresent (path : String) : Bool :=
  path ≠ "" && (t.node? (Path.location workingDirectory path)).isSome

/-- The text of the file at a path. -/
def readText (path : String) : Except FileError String :=
  match t.node? (Path.location workingDirectory path) with
  | some (.file text) => .ok text
  | some .directory => .error (.refused .isDirectory .read)
  | none => .error (.refused .notFound (.openFile path))

/-- The tree with the directory at a path and those that lead to it. -/
def makeDirectories (path : String) : Except FileError FileTree :=
  let place := Path.location workingDirectory path
  if (t.text? place).isSome then .error (.refused .alreadyExists (.makeDirectory path))
  else if t.isBlocked place then .error (.refused .notDirectory (.makeDirectory path))
  else .ok (t.storeDirectory place)

/-- The tree with a file written at a path. -/
def writeText (path text : String) : Except FileError FileTree :=
  let place := Path.location workingDirectory path
  if t.node? place = some .directory then .error (.refused .isDirectory (.openFile path))
  else if t.isBlocked place then .error (.refused .notDirectory (.openFile path))
  else if (t.node? place.dropLast).isNone then .error (.refused .notFound (.openFile path))
  else .ok (t.put place (.file text))

/-- The tree with what is at the first path moved to the second. A file replaces a file, and a
    directory one without entries. -/
def rename (source target : String) : Except FileError FileTree :=
  let s := Path.location workingDirectory source
  let d := Path.location workingDirectory target
  let refuse (fault : FileFault) : Except FileError FileTree :=
    .error (.refused fault (.rename source target))
  match t.node? s, t.node? d with
  | none, _ => refuse (if t.isBlocked s then .notDirectory else .notFound)
  | some (.file _), some .directory => refuse .isDirectory
  | some .directory, some (.file _) => refuse .notDirectory
  | some (.file _), _ => .ok (t.move s d)
  | some .directory, some .directory =>
    if t.hasEntries d then refuse .notEmpty else .ok (t.move s d)
  | some .directory, none => .ok (t.move s d)

/-- The tree without the file at a path, which need not be there. -/
def remove (path : String) : Except FileError FileTree :=
  let place := Path.location workingDirectory path
  match t.node? place with
  | some .directory => .error (.removesDirectory path)
  | some (.file _) => .ok (t.prune place)
  | none =>
    if t.isBlocked place then .error (.refused .notDirectory (.examine path)) else .ok t

end Operations

end FileTree

end NodeTagging
