import CountTree.Config.Misfit
import CountTree.Configuration
import CountTree.Toml.Calendar
import CountTree.Toml.Parser
import CountTree.Word

/-!
Reading a configuration from a TOML document. The entries of a table are read in document order
and the first that does not fit is reported; entries under other keys are passed over, and what is
missing keeps its default. A section may also be an array with its fields in order.
-/

set_option autoImplicit false
set_option relaxedAutoImplicit false

namespace CountTree

namespace Configuration

open Toml (Value Entries)

/-- The reading of one type of value. -/
abbrev Decode (α : Type) := Value → Except Misfit α

def text : Decode String
  | .text content => .ok content
  | value => .error (.wrongType value .text)

def boolean : Decode Bool
  | .boolean b => .ok b
  | value => .error (.wrongType value .boolean)

/-- A number that is not negative and at most `bound`. -/
def natural (expected : Expected) (bound : Nat) : Decode Nat
  | .integer n =>
    if 0 ≤ n ∧ n ≤ bound then .ok n.toNat else .error (.outOfRange n expected)
  | value => .error (.wrongType value expected)

def word : Decode Nat := natural .word Word.top

def halfWord : Decode Nat := natural .halfWord Word.halfTop

def signedWord : Decode Int
  | .integer n => .ok n
  | value => .error (.wrongType value .signedWord)

def formatOfName (name : String) : Except Misfit Format :=
  match Format.ofName? name with
  | some format => .ok format
  | none => .error (.unknownVariant name)

/-- A format is given by its name, or by a table that holds an empty table under its name. -/
def format : Decode Format
  | .text name => formatOfName name
  | .table [] => .error .noVariant
  | .table [(name, value)] =>
    match formatOfName name, value with
    | .error cause, _ => .error cause
    | .ok format, .table [] => .ok format
    | .ok _, .table _ => .error .variantNotEmpty
    | .ok _, value => .error (.variantNotTable value)
  | .table _ => .error .severalVariants
  | _ => .error .neitherTextNorTable

/-- A field of a record: its key and what reading it changes. -/
structure Field (α : Type) where
  key : String
  read : Value → α → Except Misfit α

def field {α β : Type} (key : String) (decode : Decode β) (put : β → α → α) : Field α :=
  ⟨key, fun value record ↦ (decode value).map (put · record)⟩

def readEntry {α : Type} (fields : List (Field α)) (record : α) (entry : String × Value) :
    Except Misfit α :=
  match fields.find? (·.key = entry.1) with
  | some field => field.read entry.2 record
  | none => .ok record

def readEntries {α : Type} (fields : List (Field α)) (entries : Entries) (record : α) :
    Except Misfit α :=
  entries.foldlM (readEntry fields) record

/-- Reads values as the fields in order. Values past the last field are passed over. -/
def readItems {α : Type} (fields : List (Field α)) (items : List Value) (record : α) :
    Except Misfit α :=
  (fields.zip items).foldlM (fun record pair ↦ pair.1.read pair.2 record) record

/-- The items of an array, however it is written. -/
def items? : Value → Option (List Value)
  | .array items => some items
  | .arrayOfTables items => some items
  | _ => none

/-- The entries of a map; a date is a map without known keys. -/
def entries? : Value → Option Entries
  | .table entries => some entries
  | .datetime _ => some []
  | _ => none

/-- A record whose fields all have defaults, which `record` holds. -/
def section? {α : Type} (name : String) (fields : List (Field α)) (record : α) : Decode α :=
  fun value ↦
    match entries? value, items? value with
    | some entries, _ => readEntries fields entries record
    | none, some items => readItems fields items record
    | none, none => .error (.wrongType value (.record name))

def designFields : List (Field String) := [field "name" text fun name _ ↦ name]

def outputFields : List (Field OutputSettings) :=
  [field "dir" text fun directory s ↦ { s with directory },
    field "format" format fun format s ↦ { s with format },
    field "append" boolean fun append s ↦ { s with append }]

def bufferFields : List (Field BufferSettings) :=
  [field "name" text fun name s ↦ { s with name },
    field "width" word fun width s ↦ { s with width },
    field "depth" word fun depth s ↦ { s with depth },
    field "nbanks" word fun bankCount s ↦ { s with bankCount }]

def elementFields : List (Field ElementSettings) :=
  [field "name" text fun name s ↦ { s with name },
    field "bit_width" halfWord fun bitWidth s ↦ { s with bitWidth },
    field "mac_n_pipe_stage" halfWord fun pipelineStages s ↦ { s with pipelineStages },
    field "mem_depth" word fun depth s ↦ { s with depth },
    field "nbanks" word fun bankCount s ↦ { s with bankCount }]

/-- A job while it is read; both addresses must be given in the end. -/
structure PartialJob where
  first : Option Nat := none
  second : Option Nat := none
  offset : Int := 0

def firstKey : String := "op0_addr"

def secondKey : String := "op1_addr"

def jobFields : List (Field PartialJob) :=
  [field firstKey word fun first s ↦ { s with first := some first },
    field secondKey word fun second s ↦ { s with second := some second },
    field "offset" signedWord fun offset s ↦ { s with offset }]

def jobRecord : String := "JobConfig"

/-- A finished job; `missing` tells what a missing address is reported as. -/
def finishJob (missingFirst missingSecond : Misfit) (read : PartialJob) : Except Misfit Job :=
  match read.first, read.second with
  | some first, some second => .ok ⟨first, second, read.offset⟩
  | none, _ => .error missingFirst
  | _, none => .error missingSecond

def job : Decode Job := fun value ↦
  match entries? value, items? value with
  | some entries, _ => do
    finishJob (.missingField firstKey) (.missingField secondKey)
      (← readEntries jobFields entries {})
  | none, some items => do
    finishJob (.tooShort 0 jobRecord 3) (.tooShort 1 jobRecord 3)
      (← readItems jobFields items {})
  | none, none => .error (.wrongType value (.record jobRecord))

def jobList : Decode (List Job) := fun value ↦
  match items? value with
  | some items => items.mapM job
  | none => .error (.wrongType value .sequence)

def fields : List (Field Configuration) :=
  [field "design" (section? "DesignConfig" designFields ({} : Configuration).designName)
      fun designName s ↦ { s with designName },
    field "output" (section? "OutputConfig" outputFields {}) fun output s ↦ { s with output },
    field "glb" (section? "MemoryConfig" bufferFields {}) fun buffer s ↦ { s with buffer },
    field "pe" (section? "PeConfig" elementFields {}) fun element s ↦ { s with element },
    field "jobs" jobList fun jobs s ↦ { s with jobs }]

/-- The configuration that a document describes. -/
def ofEntries (entries : Entries) : Except Misfit Configuration := readEntries fields entries {}

/-- The configuration that a text describes. Before a misfit is told, the dates of the document are
checked: a day that is in no calendar makes the whole document malformed. -/
def parse (text : String) : Except ConfigError Configuration :=
  match Toml.parse text with
  | none => .error .malformed
  | some entries =>
    (ofEntries entries).mapError fun misfit ↦
      if entries.haveTrueDates then .misfit misfit else .malformed

end Configuration

end CountTree
