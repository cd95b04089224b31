import CountTree.Double.Shortest
import CountTree.Text.Quoted
import CountTree.Toml.Value

/-!
Why a TOML document is no configuration, and the wording of each reason.
-/

set_option autoImplicit false
set_option relaxedAutoImplicit false

namespace CountTree

/-- What a place of the configuration takes. -/
inductive Expected where
  | text
  | boolean
  | word
  | halfWord
  | signedWord
  | sequence
  | record (name : String)
deriving DecidableEq

inductive Misfit where
  | wrongType (found : Toml.Value) (expected : Expected)
  | outOfRange (found : Int) (expected : Expected)
  | unknownVariant (name : String)
  | missingField (name : String)
  | tooShort (length : Nat) (record : String) (fieldCount : Nat)
  | neitherTextNorTable
  | noVariant
  | severalVariants
  | variantNotEmpty
  | variantNotTable (found : Toml.Value)

namespace Expected

def description : Expected → String
  | text => "a string"
  | boolean => "a boolean"
  | word => "usize"
  | halfWord => "u32"
  | signedWord => "i64"
  | sequence => "a sequence"
  | record name => "struct " ++ name

end Expected

namespace Misfit

/-- How a value is named where another was expected. A date counts as a map. -/
def found : Toml.Value → String
  | .text content => "string " ++ Text.quoted content
  | .integer n => "integer `" ++ toString n ++ "`"
  | .float x => "floating point `" ++ x.text ++ "`"
  | .boolean b => "boolean `" ++ toString b ++ "`"
  | .datetime _ => "map"
  | .array _ => "sequence"
  | .table _ => "map"
  | .arrayOfTables _ => "sequence"

def message : Misfit → String
  | wrongType value expected =>
    "invalid type: " ++ found value ++ ", expected " ++ expected.description
  | outOfRange n expected =>
    "invalid value: integer `" ++ toString n ++ "`, expected " ++ expected.description
  | unknownVariant name => "unknown variant `" ++ name ++ "`, expected `yaml` or `json`"
  | missingField name => "missing field `" ++ name ++ "`"
  | tooShort length record fieldCount =>
    s!"invalid length {length}, expected struct {record} with {fieldCount} elements"
  | neitherTextNorTable => "wanted string or table"
  | noVariant => "wanted exactly 1 element, found 0 elements"
  | severalVariants => "wanted exactly 1 element, more than 1 element"
  | variantNotEmpty => "expected empty table"
  | variantNotTable value => "expected table, found " ++ value.kindName

end Misfit

/-- A text that is no TOML document, or a document that is no configuration. -/
inductive ConfigError where
  | malformed
  | misfit (cause : Misfit)

namespace ConfigError

def message : ConfigError → String
  | malformed => "malformed document"
  | misfit cause => cause.message

end ConfigError

end CountTree
