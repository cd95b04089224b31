/-!
Paths. The names of a path stand between slashes, and a slash before them starts at the root
instead of the working directory. A slash at the end asks for a directory and counts as the name
`.` where a file is meant.
-/

set_option autoImplicit false
set_option relaxedAutoImplicit false

namespace CountTree

structure Path where
  rooted : Bool
  names : List String
  /-- The bytes of the text that gives the path. -/
  size : Nat
deriving DecidableEq

namespace Path

/-- The parts between slashes, empty ones included. -/
def parts : List Char → List (List Char)
  | [] => [[]]
  | c :: rest =>
    if c = '/' then [] :: parts rest
    else
      match parts rest with
      | [] => [[c]]
      | part :: others => (c :: part) :: others

def startsWithSlash (text : String) : Bool := text.toList.head? = some '/'

def endsWithSlash (text : String) : Bool := text.toList.getLast? = some '/'

/-- The path of a directory. -/
def ofText (text : String) : Path where
  rooted := startsWithSlash text
  names := ((parts text.toList).filter (· ≠ [])).map String.ofList
  size := text.utf8ByteSize

/-- The path of a file. -/
def fileOfText (text : String) : Path :=
  let path := ofText text
  if endsWithSlash text then { path with names := path.names ++ ["."] } else path

/-- The text of a file's path in a directory; a file that starts at the root stands alone. -/
def join (directory file : String) : String :=
  if startsWithSlash file then file
  else if directory = "" || endsWithSlash directory then directory ++ file
  else directory ++ "/" ++ file

/-- The path of a name in a directory. -/
def child (directory name : String) : Path :=
  let path := ofText directory
  { path with names := path.names ++ [name], size := (join directory name).utf8ByteSize }

/-- Whether a path gives nothing to look for. -/
def isEmpty (path : Path) : Bool := !path.rooted && path.names.isEmpty

/-- The names without those that stay where they are, save a first one. -/
def steps : List String → List String
  | [] => []
  | name :: rest => name :: rest.filter (· ≠ ".")

/-- The names that lead to the directory around what a path leads to. -/
def above (path : Path) : List String := (steps path.names).dropLast

end Path

end CountTree
