/-!
What a run is made of: the design's name, where and how reports are written, the buffer, the
processing element and its jobs. Every setting but a job's addresses has a default.
-/

set_option autoImplicit false
set_option relaxedAutoImplicit false

namespace CountTree

inductive Format where
  | yaml
  | json
deriving DecidableEq, Repr

namespace Format

/-- The name of a format, which also ends the names of its files. -/
def extension : Format → String
  | yaml => "yaml"
  | json => "json"

def title : Format → String
  | yaml => "Yaml"
  | json => "Json"

/-- The format of a name. -/
def ofName? (name : String) : Option Format := [yaml, json].find? (·.extension = name)

end Format

structure OutputSettings where
  directory : String := "output"
  format : Format := .yaml
  append : Bool := true
deriving DecidableEq

structure BufferSettings where
  name : String := "glb"
  width : Nat := 16
  depth : Nat := 2
  bankCount : Nat := 2
deriving DecidableEq

structure ElementSettings where
  name : String := "my_PE"
  bitWidth : Nat := 16
  pipelineStages : Nat := 2
  depth : Nat := 20
  bankCount : Nat := 1
deriving DecidableEq

/-- A job reads the words at two addresses and writes its result to the second. -/
structure Job where
  first : Nat
  second : Nat
  offset : Int
deriving DecidableEq

structure Configuration where
  designName : String := "my_design"
  output : OutputSettings := {}
  buffer : BufferSettings := {}
  element : ElementSettings := {}
  jobs : List Job := []
deriving DecidableEq

end CountTree
