import CountTree.Unit.ProcessingElement
import CountTree.Writer

/-!
A configured design: a container with a buffer memory and a processing element, and the jobs for
the element. The architecture is reported before the first job and the action counts after the
last.
-/

set_option autoImplicit false
set_option relaxedAutoImplicit false

namespace CountTree

structure Runner where
  design : Component
  element : ProcessingElement
  jobs : List Job

/-- What a reported run has written and computed. -/
structure RunReport where
  architecturePath : String
  actionCountsPath : String
  results : List Int
deriving DecidableEq

namespace Runner

def create (configuration : Configuration) : Except ModelError Runner := do
  let design := Component.container configuration.designName
  let settings := configuration.buffer
  let buffer ← Memory.create settings.width settings.depth settings.bankCount
  let design ← design.withChild (← buffer.build settings.name)
  let element ← ProcessingElement.create configuration.element
  let design ← design.withChild (← element.build)
  return ⟨design, element, configuration.jobs⟩

/-- Runs one job on the processing element and its part of the design. -/
def runJob (job : Job) : Run RunError Runner Int := fun runner ↦
  Run.onPart (fun runner ↦ (runner.element, runner.design))
    (fun (element, design) runner ↦ { runner with design, element })
    (ProcessingElement.onUnit runner.element.name (ProcessingElement.process job)) runner

/-- Runs jobs in order up to the first that fails. -/
def runJobs : List Job → Run RunError Runner (List Int)
  | [] => return []
  | job :: jobs => do
    let result ← runJob job
    let results ← runJobs jobs
    return result :: results

/-- Runs all configured jobs. -/
def run : Run RunError Runner (List Int) := fun runner ↦ runJobs runner.jobs runner

abbrev World := Runner × Files

def onRunner {α : Type} (step : Run RunError Runner α) : Run RunError World α := Run.onFst step

def onFiles {α : Type} (step : Run FileError Files α) : Run RunError World α :=
  Run.onSnd (Run.mapError .file step)

/-- Writes a report of the design as it stands. -/
def report (writer : Writer) (kind : ReportKind) : Run RunError World String := do
  onFiles (writer.write kind (Report.ofKind kind (← get).1.design))

/-- Prepares the output directory, reports the architecture, runs all jobs and reports the action
counts. -/
def runAndReport (writer : Writer) : Run RunError World RunReport := do
  let _ ← onFiles writer.prepare
  let architecturePath ← report writer .architecture
  let results ← onRunner run
  let actionCountsPath ← report writer .actionCounts
  return ⟨architecturePath, actionCountsPath, results⟩

end Runner

end CountTree
