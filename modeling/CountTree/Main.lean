import CountTree.CommandLine

/-!
The command as a program. The part of the file system that the command can touch is read into a
value, the command runs on that value, and what has changed is written back. The value sets no
limits to what is written, since nobody knows them in advance: where the machine does not take what
is written back, the program ends with an error of its own.
-/

set_option autoImplicit false
set_option relaxedAutoImplicit false

namespace CountTree.Program

/-- The machine's name of a location, which is short for one below the working directory. -/
def systemName (working location : Location) : String :=
  if working.length < location.length ∧ working.isPrefixOf location then
    "/".intercalate (location.drop working.length)
  else "/" ++ "/".intercalate location

/-- What stands at a location of the machine's file system. -/
def observe (working location : Location) : IO (Option FileEntry) := do
  let entry : IO.FS.DirEntry := ⟨systemName working location, ""⟩
  if ← entry.root.isDir then return some .directory
  else if ← entry.root.pathExists then
    let content ← IO.FS.readBinFile entry.root
    let isDevice := (← entry.root.metadata).type == .other
    return some (if isDevice then .device content else .file content)
  else return none

/-- Takes what stands along a path into the value. -/
def observeAlong (files : Files) (path : Path) : IO Files := do
  let mut seen := files
  for location in Files.along (files.start path) path.names do
    if (seen.get? location).isNone then
      match ← observe files.working location with
      | some entry => seen := seen.put location entry
      | none => pure ()
  return seen

/-- Makes the machine's file system agree with the value at a location. -/
def settle (before after : Files) (location : Location) : IO Unit := do
  let name := systemName before.working location
  match before.get? location, after.get? location with
  | none, some .directory => IO.FS.createDir name
  | some (.file old), some (.file content) =>
    if old.data ≠ content.data then IO.FS.writeBinFile name content
  | _, some (.file content) => IO.FS.writeBinFile name content
  | some (.file _), none => IO.FS.removeFile name
  | _, _ => pure ()

/-- The locations of a value, those of directories before what is in them. -/
def locations (files : Files) : List Location := files.entries.map (·.1)

def execute (arguments : List String) : IO Transcript := do
  let working := (Path.ofText (← IO.currentDir).toString).names
  let mut files : Files := { Files.empty with working }
  for path in CommandLine.touched arguments files do
    files ← observeAlong files path
  for path in CommandLine.touched arguments files do
    files ← observeAlong files path
  let transcript := CommandLine.execute arguments files
  for location in locations files do
    settle files transcript.files location
  for location in locations transcript.files do
    if (files.get? location).isNone then settle files transcript.files location
  return transcript

end CountTree.Program

def main (arguments : List String) : IO UInt32 := do
  let transcript ← CountTree.Program.execute arguments
  let output ← IO.getStdout
  let errors ← IO.getStderr
  output.putStr transcript.output
  errors.putStr transcript.errors
  return transcript.exitCode.toUInt32
