import CountTree.CommandLine
import CountTree.Proofs.JobSummary
import CountTree.Proofs.SignedWords

/-!
What the command prints. Each list of lines is written down here as it is to be read, apart from how
the program puts it together: one line for each job in the order of the jobs (`resultLines`), where
the reports are (`placeLines`), and a table with one line for each row and one for the total
(`tableLines`). `reportLines_eq` says that the program prints just these. Nothing of them is among
the lines of the configuration (`isPlain_of_mem_configurationLines`).
-/

set_option autoImplicit false
set_option relaxedAutoImplicit false

namespace CountTree.CommandLine

/-- Lines as they are printed, each with a line break at its end. -/
def printed (lines : List String) : String := String.join (lines.map fun line ↦ line ++ "\n")

/-! ### Results -/

/-- For each job, in order, its offset at the width of the unit. -/
def resultLines (bitWidth : Nat) (jobs : List Job) : List String :=
  jobs.mapIdx fun place job ↦ s!"[*] Job {place} result: {Signed.narrow bitWidth job.offset}"

theorem jobLines_map (bitWidth place : Nat) (jobs : List Job) :
    jobLines place (jobs.map fun job ↦ Signed.narrow bitWidth job.offset) =
      jobs.mapIdx fun index job ↦
        s!"[*] Job {place + index} result: {Signed.narrow bitWidth job.offset}" := by
  induction jobs generalizing place with
  | nil => rfl
  | cons job jobs ih =>
    rw [List.map_cons, jobLines, ih, List.mapIdx_cons]
    simp only [Nat.add_assoc, Nat.add_comm 1]
    rfl

/-- Where the reports of a configuration are. -/
def placeLines (configuration : Configuration) : List String :=
  let writer := Writer.ofSettings configuration.output
  ["[*] Architecture description: " ++
      writer.shownPath ReportKind.architecture.stem writer.format,
    "[*] Action counts:            " ++
      writer.shownPath ReportKind.actionCounts.stem writer.format]

/-! ### The table -/

/-- One line of the table: four columns, of which only the last is aligned on the right. -/
def rowText (row : SummaryRow) : String :=
  String.ofList (row.component.toList.rightpad 28 ' ' ++ [' '] ++
    row.classTag.toList.rightpad 6 ' ' ++ [' '] ++ row.action.toList.rightpad 14 ' ' ++ [' '] ++
    (toString row.count).toList.leftpad 8 ' ')

def totalText (total : Nat) : String :=
  "total                                              " ++
    String.ofList ((toString total).toList.leftpad 8 ' ')

/-- A table with a line for each row, in their order, and one for their total. -/
def tableLines (rows : Summary) (total : Nat) : List String :=
  ["",
    "==========================================================",
    "ACTION COUNT SUMMARY",
    "==========================================================",
    "component                    class  action            count",
    "----------------------------------------------------------"] ++
  rows.map rowText ++
  ["----------------------------------------------------------",
    totalText total,
    "=========================================================="]

theorem padRight_eq (width : Nat) (text : String) :
    Summary.padRight width text = String.ofList (text.toList.rightpad width ' ') := by
  rw [Summary.padRight, List.rightpad, String.ofList_append, String.ofList_toList,
    String.length_toList]

theorem padLeft_eq (width : Nat) (text : String) :
    Summary.padLeft width text = String.ofList (text.toList.leftpad width ' ') := by
  rw [Summary.padLeft, List.leftpad, String.ofList_append, String.ofList_toList,
    String.length_toList]

theorem rowLine_eq (row : SummaryRow) : Summary.rowLine row = rowText row := by
  rw [Summary.rowLine, Summary.line, rowText, padRight_eq, padRight_eq, padRight_eq, padLeft_eq]
  simp only [String.ofList_append]

theorem lines_eq (summary : Summary) : summary.lines = tableLines summary summary.total := by
  have hpad : Summary.padRight 50 "total" ++ " " =
      "total                                              " := by decide
  have htotal : Summary.padRight 50 "total" ++ " " ++
      Summary.padLeft 8 (toString summary.total) = totalText summary.total :=
    congrArg₂ (· ++ ·) hpad (padLeft_eq 8 (toString summary.total))
  rw [Summary.lines, tableLines, htotal, funext rowLine_eq]
  rfl

/-! ### All lines -/

theorem reportLines_eq (configuration : Configuration) (summary : Summary) :
    let writer := Writer.ofSettings configuration.output
    reportLines ⟨writer.shownPath ReportKind.architecture.stem writer.format,
        writer.shownPath ReportKind.actionCounts.stem writer.format,
        configuration.jobs.map fun job ↦
          Signed.narrow configuration.element.bitWidth job.offset⟩ summary =
      resultLines configuration.element.bitWidth configuration.jobs ++ placeLines configuration ++
        tableLines summary summary.total := by
  intro writer
  rw [reportLines, jobLines_map, lines_eq, resultLines]
  simp only [Nat.zero_add]
  rfl

/-! ### Lines without results -/

/-- A line that is no result, no place of a report and no title of a table. -/
def IsPlain (line : String) : Prop :=
  ¬ "[*]".toList <+: line.toList ∧ line ≠ "ACTION COUNT SUMMARY"

theorem isPlain_of_head {line : String} {c : Char} (h : line.toList.head? = some c)
    (hbracket : c ≠ '[') (htitle : c ≠ 'A') : IsPlain line := by
  constructor
  · rintro ⟨rest, hrest⟩
    rw [← hrest] at h
    exact hbracket (Option.some.inj h).symm
  · rintro rfl
    exact htitle (Option.some.inj h).symm

/-- A blank at its beginning makes a line plain, whatever comes after it. -/
theorem isPlain_append {label : String} (h : label.toList.head? = some ' ') (rest : String) :
    IsPlain (label ++ rest) := by
  refine isPlain_of_head (c := ' ') ?_ (by decide) (by decide)
  rw [String.toList_append, List.head?_append, h, Option.some_or]

theorem isPlain_of_mem_configurationLines {configuration : Configuration} {line : String}
    (h : line ∈ configurationLines configuration) : IsPlain line := by
  simp only [configurationLines, String.append_assoc, List.mem_cons, List.not_mem_nil,
    or_false] at h
  -- The labels with their values are indented; the title and the two rules are not.
  rcases h with rfl | rfl | rfl | rfl | rfl | rfl | rfl | rfl | rfl | rfl
  case inl | inr.inl => exact isPlain_of_head rfl (by decide) (by decide)
  case inr.inr.inr.inr.inr.inr.inr.inr.inr => exact isPlain_of_head rfl (by decide) (by decide)
  all_goals exact isPlain_append rfl _

end CountTree.CommandLine
