import CountTree.Files.FileError
import CountTree.Files.Path
import CountTree.Files.Tree
import CountTree.Run

/-!
A file system as a value: directories, files with their bytes, and devices. Operations walk a path
name by name, so every name but the last must lead to a directory. To write is to open a file first,
which makes or empties it, and then to put bytes into it, which may break off after some of them:
the value tells in advance how the writes to come end. Everything else depends only on the paths and
on what stands where they lead: there are no permissions and no links, and no other process has a
part in it.
-/

set_option autoImplicit false
set_option relaxedAutoImplicit false

namespace CountTree

/-- How a write ends that breaks off: how many bytes are taken before that, and why. -/
structure Limit where
  room : Nat
  cause : FileError
deriving DecidableEq

structure Files where
  tree : FileTree
  working : Location := []
  /-- What limits the writes to come, one after the other. A write past the last of these goes
  through. -/
  limits : List (Option Limit) := []

namespace Files

def empty : Files := { tree := .empty }

/-- What stands at a location. The root is always there. -/
def get? (files : Files) (location : Location) : Option FileEntry :=
  if location = [] then some .directory else files.tree.get? location

def remove (files : Files) (location : Location) : Files :=
  { files with tree := files.tree.set none location }

def put (files : Files) (location : Location) (entry : FileEntry) : Files :=
  { files with tree := files.tree.set (some entry) location }

def entries (files : Files) : List (Location × FileEntry) := files.tree.entries

theorem get?_remove_self (files : Files) {location : Location} (h : location ≠ []) :
    (files.remove location).get? location = none := by
  simp [get?, remove, h, FileTree.get?_set_self]

theorem get?_remove_of_ne (files : Files) {location other : Location} (h : other ≠ location) :
    (files.remove location).get? other = files.get? other := by
  simp [get?, remove, FileTree.get?_set_of_ne none files.tree h]

theorem get?_put_self (files : Files) {location : Location} (entry : FileEntry)
    (h : location ≠ []) : (files.put location entry).get? location = some entry := by
  simp [get?, put, h, FileTree.get?_set_self]

theorem get?_put_of_ne (files : Files) {location other : Location} (entry : FileEntry)
    (h : other ≠ location) : (files.put location entry).get? other = files.get? other := by
  simp [get?, put, FileTree.get?_set_of_ne (some entry) files.tree h]

/-- Where a name leads from a location. -/
def step (location : Location) (name : String) : Location :=
  if name = "." then location else if name = ".." then location.dropLast else location ++ [name]

/-- The longest name, in bytes. -/
def longestName : Nat := 255

/-- The longest path, in bytes. -/
def longestPath : Nat := 4095

/-- Where names lead from a location. The last one need not exist. -/
def walk (files : Files) (location : Location) : List String → Except FileError Location
  | [] => .ok location
  | name :: rest =>
    match files.get? location with
    | none => .error .noSuchFile
    | some (.file _) => .error .notADirectory
    | some (.device _) => .error .notADirectory
    | some .directory =>
      if longestName < name.utf8ByteSize then .error .nameTooLong
      else files.walk (step location name) rest

/-- Where a path starts. -/
def start (files : Files) (path : Path) : Location := if path.rooted then [] else files.working

def holdsNul (path : Path) : Bool := path.names.any (·.toList.contains '\x00')

/-- Where a path leads. An empty path leads nowhere. -/
def locate (files : Files) (path : Path) : Except FileError Location :=
  if path.isEmpty then .error .noSuchFile
  else if holdsNul path then .error .nulInName
  else if longestPath < path.size then .error .nameTooLong
  else files.walk (files.start path) path.names

def lookUp (files : Files) (path : Path) : Option FileEntry :=
  match files.locate path with
  | .ok location => files.get? location
  | .error _ => none

def isDirectory (files : Files) (path : Path) : Bool :=
  match files.lookUp path with
  | some .directory => true
  | _ => false

def isFile (files : Files) (path : Path) : Bool :=
  match files.lookUp path with
  | some (.file _) => true
  | _ => false

def readBytes (files : Files) (path : Path) : Except FileError ByteArray :=
  match files.locate path with
  | .error cause => .error cause
  | .ok location =>
    match files.get? location with
    | none => .error .noSuchFile
    | some .directory => .error .isADirectory
    | some (.file content) => .ok content
    | some (.device content) => .ok content

def readText (files : Files) (path : Path) : Except FileError String :=
  match files.readBytes path with
  | .error cause => .error cause
  | .ok content =>
    match String.fromUTF8? content with
    | some text => .ok text
    | none => .error .notText

/-- Makes one directory where nothing stands yet. -/
def makeDirectory (path : Path) : Run FileError Files Unit := fun files ↦
  match files.locate path with
  | .error cause => .error cause files
  | .ok location =>
    match files.get? location with
    | some _ => .error .fileExists files
    | none => .ok () (files.put location .directory)

/-- Makes one directory unless it is there. -/
def requireDirectory (path : Path) : Run FileError Files Unit := fun files ↦
  match makeDirectory path files with
  | .ok _ made => .ok () made
  | .error cause kept =>
    if cause = .fileExists && kept.isDirectory path then .ok () kept else .error cause kept

/-- Goes along names and makes a directory wherever nothing stands. -/
def makeAlong (location : Location) : List String → Run FileError Files Unit
  | [] => fun files ↦ .ok () files
  | name :: rest => fun files ↦
    match files.walk location [name] with
    | .error cause => .error cause files
    | .ok next =>
      match files.get? next with
      | some (.file _) => .error .fileExists files
      | some (.device _) => .error .fileExists files
      | some .directory => makeAlong next rest files
      | none => makeAlong next rest (files.put next .directory)

/-- Makes a directory and all directories that lead to it. -/
def makeDirectories (path : Path) : Run FileError Files Unit := fun files ↦
  if path.isEmpty then .ok () files
  else
    match requireDirectory path files with
    | .error .noSuchFile kept =>
      match makeAlong (kept.start path) path.above kept with
      | .error cause made => .error cause made
      | .ok _ made => requireDirectory path made
    | outcome => outcome

/-- What breaks the next write off, if it is of this content. -/
def limit? (files : Files) (content : ByteArray) : Option Limit :=
  files.limits.head?.join.filter (·.room < content.size)

/-- As much of a content as the next write takes. -/
def taken (files : Files) (content : ByteArray) : ByteArray :=
  match files.limit? content with
  | none => content
  | some limit => content.extract 0 limit.room

/-- Opens a file for writing. What is not there is made, and a file that is not to be appended to
loses what it held. -/
def openFile (path : Path) (append : Bool) : Run FileError Files Location := fun files ↦
  match files.locate path with
  | .error cause => .error cause files
  | .ok location =>
    match files.get? location with
    | some .directory => .error .isADirectory files
    | some (.device _) => .ok location files
    | some (.file _) =>
      .ok location (if append then files else files.put location (.file .empty))
    | none => .ok location (files.put location (.file .empty))

/-- Writes at the end of a file that was opened, as much as is taken. What goes to a device is
gone. -/
def writeOpened (location : Location) (content : ByteArray) : Run FileError Files Unit :=
  fun files ↦
    let rest := { files with limits := files.limits.tail }
    let after := match files.get? location with
      | some (.file old) => rest.put location (.file (old ++ files.taken content))
      | _ => rest
    match files.limit? content with
    | none => .ok () after
    | some limit => .error limit.cause after

/-- Writes a file anew, or puts the content at the end of it. -/
def writeBytes (path : Path) (append : Bool) (content : ByteArray) :
    Run FileError Files Unit := do
  let location ← openFile path append
  writeOpened location content

def writeText (path : Path) (append : Bool) (text : String) : Run FileError Files Unit :=
  writeBytes path append text.toUTF8

def removeFile (path : Path) : Run FileError Files Unit := fun files ↦
  match files.locate path with
  | .error cause => .error cause files
  | .ok location =>
    match files.get? location with
    | none => .error .noSuchFile files
    | some .directory => .error .isADirectory files
    | some (.file _) => .ok () (files.remove location)
    | some (.device _) => .ok () (files.remove location)

/-- All locations that a path passes, its start included. -/
def along (location : Location) : List String → List Location
  | [] => [location]
  | name :: rest => location :: along (step location name) rest

end Files

end CountTree
