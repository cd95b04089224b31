/-!
Why the file system refuses an operation, and the wording of each refusal.
-/

set_option autoImplicit false
set_option relaxedAutoImplicit false

namespace CountTree

inductive FileError where
  | noSuchFile
  | fileExists
  | notADirectory
  | isADirectory
  | nameTooLong
  | nulInName
  | notText
  | inputOutput
  | fileTooLarge
  | noSpace
  | quotaExceeded
deriving DecidableEq, Repr

namespace FileError

def message : FileError → String
  | noSuchFile => "No such file or directory (os error 2)"
  | fileExists => "File exists (os error 17)"
  | notADirectory => "Not a directory (os error 20)"
  | isADirectory => "Is a directory (os error 21)"
  | nameTooLong => "File name too long (os error 36)"
  | nulInName => "file name contained an unexpected NUL byte"
  | notText => "stream did not contain valid UTF-8"
  | inputOutput => "Input/output error (os error 5)"
  | fileTooLarge => "File too large (os error 27)"
  | noSpace => "No space left on device (os error 28)"
  | quotaExceeded => "Disk quota exceeded (os error 122)"

end FileError

end CountTree
