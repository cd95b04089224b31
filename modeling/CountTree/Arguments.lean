import CountTree.Configuration

/-!
Command-line arguments. They are read from the left, and the first that is wrong or asks for help
or the version decides. An option is given at most once; its value follows it, after an equals
sign or, for a letter, directly, or else as the next argument, which then must not look like an
option.
-/

set_option autoImplicit false
set_option relaxedAutoImplicit false

namespace CountTree

structure Options where
  configPath : Option String := none
  directory : Option String := none
  format : Option Format := none
deriving DecidableEq

/-- What the arguments ask for. -/
inductive Request where
  | run (options : Options)
  | help
  | version
deriving DecidableEq

inductive OptionName where
  | config
  | output
  | format
deriving DecidableEq

inductive FlagName where
  | help
  | version
deriving DecidableEq

/-- One argument. -/
inductive Argument where
  | flag (name : FlagName)
  | attached (name : OptionName) (value : String)
  | option (name : OptionName)
  | separator
  | rejected
deriving DecidableEq

namespace Argument

def ofLongName (name : List Char) (value : Option (List Char)) : Argument :=
  let ofOption (name : OptionName) :=
    match value with
    | some value => attached name (String.ofList value)
    | none => option name
  let ofFlag (name : FlagName) := if value.isSome then rejected else flag name
  if name = "config".toList then ofOption .config
  else if name = "output".toList then ofOption .output
  else if name = "format".toList then ofOption .format
  else if name = "help".toList then ofFlag .help
  else if name = "version".toList then ofFlag .version
  else rejected

/-- Letters may be run together, but a flag decides alone. -/
def ofLetters : List Char → Argument
  | 'h' :: _ => flag .help
  | 'V' :: _ => flag .version
  | [c] => if c = 'c' then option .config else if c = 'o' then option .output else rejected
  | c :: rest =>
    let value := if rest.head? = some '=' then rest.drop 1 else rest
    if c = 'c' then attached .config (String.ofList value)
    else if c = 'o' then attached .output (String.ofList value)
    else rejected
  | [] => rejected

def ofText (text : String) : Argument :=
  match text.toList with
  | ['-', '-'] => separator
  | '-' :: '-' :: rest =>
    let name := rest.takeWhile (· ≠ '=')
    match rest.dropWhile (· ≠ '=') with
    | _ :: value => ofLongName name (some value)
    | [] => ofLongName name none
  | '-' :: rest => ofLetters rest
  | _ => rejected

end Argument

namespace Options

/-- Takes a value for an option that has none yet. -/
def set? (options : Options) (name : OptionName) (value : String) : Option Options :=
  match name with
  | .config =>
    if options.configPath.isSome then none else some { options with configPath := some value }
  | .output =>
    if options.directory.isSome then none else some { options with directory := some value }
  | .format =>
    if options.format.isSome then none
    else (Format.ofName? value).map fun format ↦ { options with format := some format }

end Options

namespace Request

/-- Whether an argument can be the value of the option before it. -/
def isValue (text : String) : Bool := text = "-" || text.toList.head? ≠ some '-'

def ofArgumentsFrom (options : Options) : List String → Option Request
  | [] => some (.run options)
  | text :: rest =>
    match Argument.ofText text with
    | .flag .help => some .help
    | .flag .version => some .version
    | .attached name value =>
      (options.set? name value).bind fun options ↦ ofArgumentsFrom options rest
    | .option name =>
      match rest with
      | [] => none
      | value :: rest =>
        if isValue value then
          (options.set? name value).bind fun options ↦ ofArgumentsFrom options rest
        else none
    | .separator => if rest.isEmpty then some (.run options) else none
    | .rejected => none

/-- What the arguments ask for; nothing when they are rejected. -/
def ofArguments (arguments : List String) : Option Request := ofArgumentsFrom {} arguments

end Request

end CountTree
