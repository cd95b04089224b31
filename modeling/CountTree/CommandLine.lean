import CountTree.Arguments
import CountTree.Config.Reader
import CountTree.Runner
import CountTree.Summary

/-!
The command. It reads a configuration, runs the design's jobs, writes both reports and prints the
results and a summary. A failure after the configuration has been read leaves what was printed
before it. The lines of the log, which go to the same output, are left out, as if the log were
turned off, and printing does not fail.
-/

set_option autoImplicit false
set_option relaxedAutoImplicit false

namespace CountTree

/-- All that a command leaves behind. -/
structure Transcript where
  exitCode : Nat
  output : String
  errors : String
  files : Files

namespace CommandLine

def defaultConfigPath : String := "configs/default.toml"

def helpLines : List String :=
  ["Hierarchical action-count instrumentation",
    "",
    "Usage: action-counts [OPTIONS]",
    "",
    "Options:",
    "  -c, --config <CONFIG>  [default: configs/default.toml]",
    "  -o, --output <OUTPUT>  Output directory, overriding the configuration",
    "      --format <FORMAT>  Report format, overriding the configuration " ++
      "[possible values: yaml, json]",
    "  -h, --help             Print help",
    "  -V, --version          Print version"]

def versionLines : List String := ["action-counts 0.1.0"]

/-- Lines with their breaks. -/
def unlines (lines : List String) : String := String.join (lines.map (· ++ "\n"))

/-- The options take the place of the settings that they name. -/
def override (options : Options) (configuration : Configuration) : Configuration :=
  let output := configuration.output
  { configuration with
    output := { output with
      directory := options.directory.getD output.directory
      format := options.format.getD output.format } }

def configurationLines (configuration : Configuration) : List String :=
  let output := configuration.output
  let buffer := configuration.buffer
  let element := configuration.element
  ["Global Configuration",
    "--------------------",
    s!"  Design:             {configuration.designName}",
    s!"  Output Dir:         {output.directory}",
    s!"  Format:             {output.format.title}",
    s!"  Append:             {output.append}",
    s!"  GLB:                {buffer.name} " ++
      s!"({buffer.depth} x {buffer.width}b, {buffer.bankCount} banks)",
    s!"  PE:                 {element.name} " ++
      s!"({element.bitWidth}b MAC, {element.pipelineStages} stages, spad depth {element.depth})",
    s!"  Jobs:               {configuration.jobs.length}",
    "--------------------"]

def jobLines (place : Nat) : List Int → List String
  | [] => []
  | result :: results => s!"[*] Job {place} result: {result}" :: jobLines (place + 1) results

def reportLines (report : RunReport) (summary : Summary) : List String :=
  jobLines 0 report.results ++
    [s!"[*] Architecture description: {report.architecturePath}",
      s!"[*] Action counts:            {report.actionCountsPath}"] ++
    summary.lines

/-- The end of a command that fails. A fault of the machine has a code of its own and no message. -/
def failed (output : List String) (files : Files) : RunError → Transcript
  | .model (.fault _) => ⟨101, unlines output, "", files⟩
  | cause => ⟨1, unlines output, "\n[!] FATAL: " ++ cause.message ++ "\n", files⟩

def readConfiguration (path : String) (files : Files) : Except RunError Configuration :=
  match files.readText (Path.fileOfText path) with
  | .error cause => .error (.file cause)
  | .ok text => (Configuration.parse text).mapError .config

def runWith (options : Options) (files : Files) : Transcript :=
  match readConfiguration (options.configPath.getD defaultConfigPath) files with
  | .error cause => failed [] files cause
  | .ok configuration =>
    let configuration := override options configuration
    let printed := configurationLines configuration
    match Runner.create configuration with
    | .error cause => failed printed files (.model cause)
    | .ok runner =>
      match Runner.runAndReport (.ofSettings configuration.output) (runner, files) with
      | .error cause (_, files) => failed printed files cause
      | .ok report (runner, files) =>
        ⟨0, unlines (printed ++ reportLines report (Summary.ofTree runner.design)), "", files⟩

/-- The paths that a command with these arguments reads or changes: the configuration and, once
that can be read, the output directory and the reports. -/
def touched (arguments : List String) (files : Files) : List Path :=
  match Request.ofArguments arguments with
  | some (.run options) =>
    let configPath := options.configPath.getD defaultConfigPath
    Path.fileOfText configPath ::
      match readConfiguration configPath files with
      | .error _ => []
      | .ok configuration =>
        let writer := Writer.ofSettings (override options configuration).output
        Path.ofText writer.directory ::
          Writer.reports.map fun report ↦ writer.path report.1 report.2
  | _ => []

/-- Runs the command. Rejected arguments change and print nothing. -/
def execute (arguments : List String) (files : Files) : Transcript :=
  match Request.ofArguments arguments with
  | none => ⟨2, "", "", files⟩
  | some .help => ⟨0, unlines helpLines, "", files⟩
  | some .version => ⟨0, unlines versionLines, "", files⟩
  | some (.run options) => runWith options files

end CommandLine

end CountTree
