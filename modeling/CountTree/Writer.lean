import CountTree.Configuration
import CountTree.Files
import CountTree.Json
import CountTree.Report
import CountTree.Yaml.Printer

/-!
Report files. A writer puts the reports of a design into one directory, each into a file named for
the report and the format. Preparing the directory removes what an earlier run has left, so that
appending starts afresh.
-/

set_option autoImplicit false
set_option relaxedAutoImplicit false

namespace CountTree

/-- The text of a document in a format. -/
def Format.render (format : Format) (document : Mapping) : String :=
  match format with
  | .yaml => Yaml.render document
  | .json => Json.render document

/-- The name of a report's files, without the format. -/
def ReportKind.stem : ReportKind → String
  | .architecture => "architecture_description"
  | .actionCounts => "action_counts"

structure Writer where
  directory : String
  format : Format
  append : Bool
deriving DecidableEq

namespace Writer

def ofSettings (settings : OutputSettings) : Writer :=
  ⟨settings.directory, settings.format, settings.append⟩

def fileName (stem : String) (format : Format) : String := stem ++ "." ++ format.extension

/-- The path of a file in the writer's directory, as it is shown. -/
def shownPath (writer : Writer) (stem : String) (format : Format) : String :=
  Path.join writer.directory (fileName stem format)

/-- Where the files of a report lie. -/
def path (writer : Writer) (kind : ReportKind) (format : Format) : Path :=
  Path.child writer.directory (fileName kind.stem format)

/-- The reports in all formats. -/
def reports : List (ReportKind × Format) :=
  [(.architecture, .yaml), (.architecture, .json), (.actionCounts, .yaml), (.actionCounts, .json)]

/-- Removes the files of these reports and lists them. -/
def removeReports (writer : Writer) :
    List (ReportKind × Format) → Run FileError Files (List String)
  | [] => fun files ↦ .ok [] files
  | (kind, format) :: others => fun files ↦
    if files.isFile (writer.path kind format) then
      match Files.removeFile (writer.path kind format) files with
      | .error cause kept => .error cause kept
      | .ok _ files =>
        match writer.removeReports others files with
        | .error cause kept => .error cause kept
        | .ok removed files => .ok (writer.shownPath kind.stem format :: removed) files
    else writer.removeReports others files

/-- Makes the directory and removes the reports in it; the result lists them. -/
def prepare (writer : Writer) : Run FileError Files (List String) := do
  Files.makeDirectories (Path.ofText writer.directory)
  writer.removeReports reports

def withFinalNewline (text : String) : String :=
  if text.toList.getLast? = some '\n' then text else text ++ "\n"

/-- What is written for one document. Appended YAML documents begin with a separator. -/
def chunk (writer : Writer) (document : Mapping) : String :=
  let text := withFinalNewline (writer.format.render document)
  if writer.append && writer.format = .yaml then "---\n" ++ text else text

/-- Writes a document to the file of a report; the result is the path that is shown. -/
def write (writer : Writer) (kind : ReportKind) (document : Mapping) :
    Run FileError Files String := do
  Files.writeText (writer.path kind writer.format) writer.append (writer.chunk document)
  return writer.shownPath kind.stem writer.format

end Writer

end CountTree
