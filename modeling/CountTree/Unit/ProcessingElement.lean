import CountTree.Configuration
import CountTree.Unit.Mac
import CountTree.Unit.Memory

/-!
A processing element: a container with a multiply-accumulate unit and a scratchpad memory. A job
reads two words of the scratchpad, runs them through the unit twice and writes the result back.
-/

set_option autoImplicit false
set_option relaxedAutoImplicit false

namespace CountTree

structure ProcessingElement where
  name : String
  mac : Mac
  scratchpad : Memory
deriving DecidableEq

namespace ProcessingElement

def macName : String := "PE_mac"

def scratchpadName : String := "PE_spad"

/-- The element with these settings; its scratchpad is as wide as its unit. -/
def create (settings : ElementSettings) : Except ModelError ProcessingElement := do
  let scratchpad ← Memory.create settings.bitWidth settings.depth settings.bankCount
  return ⟨settings.name, ⟨settings.bitWidth, settings.pipelineStages⟩, scratchpad⟩

/-- The container with its two leaves. -/
def build (element : ProcessingElement) : Except ModelError Component := do
  let node ← (Component.container element.name).withChild (← element.mac.build macName)
  node.withChild (← element.scratchpad.build scratchpadName)

/-- Runs a step on the child of that name. -/
def onChild {α : Type} (name : String) (step : Run RunError Component α) :
    Run RunError Component α := fun node ↦
  match Component.focus step [name] node with
  | some outcome => outcome
  | none => .error (.missingComponent node.name name) node

/-- Runs a step on a unit and the child of that name. What it does to either of them stays, also if
it fails. -/
def onUnit {σ α : Type} (name : String) (step : Run RunError (σ × Component) α) :
    Run RunError (σ × Component) α := fun (unit, node) ↦
  match Component.focus (Run.beside unit step) [name] node with
  | some (.ok (value, unit) node) => .ok value (unit, node)
  | some (.error (cause, unit) node) => .error cause (unit, node)
  | none => .error (.missingComponent node.name name) (unit, node)

/-- Runs a step on the scratchpad and the child that describes it. -/
def onScratchpad {α : Type} (step : Run RunError (Memory × Component) α) :
    Run RunError (ProcessingElement × Component) α :=
  Run.onPart (fun (element, node) ↦ (element.scratchpad, node))
    (fun (scratchpad, node) (element, _) ↦ ({ element with scratchpad }, node))
    (onUnit scratchpadName step)

/-- Checks both addresses, then reads the words there. -/
def operands (memory : Memory) (first second : Nat) : Run RunError Component (Int × Int) := do
  Run.ofExcept (memory.checkAddress (← get).name first)
  Run.ofExcept (memory.checkAddress (← get).name second)
  let operand ← memory.read first
  let operand' ← memory.read second
  return (operand, operand')

/-- The result of a job, from a step with both words and a second one that is gated. -/
def product (mac : Mac) (operands : Int × Int) (offset : Int) : Run ModelError Component Int := do
  let _ ← mac.calculate operands.1 operands.2 offset
  mac.calculate operands.1 0 offset

/-- Runs one job on an element and its tree: the result, which is written back last. -/
def process (job : Job) : Run RunError (ProcessingElement × Component) Int := do
  let (element, _) ← get
  let words ← Run.onSnd (onChild scratchpadName (operands element.scratchpad job.first job.second))
  let result ← Run.onSnd
    (onChild macName (Run.mapError .model (product element.mac words job.offset)))
  onScratchpad (Memory.write job.second result)
  return result

end ProcessingElement

end CountTree
