import CountTree.Config.Misfit
import CountTree.Files.FileError
import CountTree.ModelError

/-!
All that can go wrong in a run, and the wording: what the component tree refuses, what a unit
misses, and what happens to files and configurations.
-/

set_option autoImplicit false
set_option relaxedAutoImplicit false

namespace CountTree

inductive RunError where
  | model (cause : ModelError)
  | addressOutOfRange (component : String) (address depth : Nat)
  | missingComponent (parent name : String)
  | file (cause : FileError)
  | config (cause : ConfigError)

namespace RunError

def message : RunError → String
  | model cause => cause.message
  | addressOutOfRange component address depth =>
    s!"AddressOutOfRange: '{component}' has depth {depth}, address {address} requested"
  | missingComponent parent name =>
    s!"MissingComponent: '{parent}' has no child named '{name}'"
  | file cause => "I/O error: " ++ cause.message
  | config cause => "Config error: " ++ cause.message

end RunError

end CountTree
