import CountTree.Proofs.FileWrites
import CountTree.Proofs.JsonLines
import CountTree.Proofs.ReportPaths
import CountTree.Proofs.YamlLines

/-!
What report files hold. A run of writes puts the reports of any trees into the two files of a
writer, and goes on after failures. As long as no write is broken off (`Writer.GoThrough`), each
file then holds what was written to it and nothing else, all of it when appending and the last of it
otherwise (`Writer.lookUp_writeAll`). Appended texts can be told apart again: `Format.split` cuts
before each line that begins like a separator in YAML and after each line with nothing but a closing
brace in JSON, and no line of a report is taken for such a line. `appended_reports_split` is the
main statement.
-/

set_option autoImplicit false
set_option relaxedAutoImplicit false

namespace CountTree

/-! ### Telling texts apart -/

namespace Format

/-- The lines that part the documents of a file: in YAML those that begin like a separator, in JSON
those with nothing but a closing brace. -/
def isMark : Format → List Char → Bool
  | .yaml, line => Yaml.separator.isPrefixOf line
  | .json, line => line = Json.closing

/-- The lines of one document among others: a mark comes first in YAML and last in JSON, and there
is no other. -/
def Framed : Format → List (List Char) → Prop
  | .yaml, lines => ∃ mark rest, lines = mark :: rest ∧ isMark .yaml mark = true ∧
    ∀ line ∈ rest, isMark .yaml line = false
  | .json, lines => ∃ rest mark, lines = rest ++ [mark] ∧ isMark .json mark = true ∧
    ∀ line ∈ rest, isMark .json line = false

/-- Cuts lines before each mark in YAML and after each mark in JSON. -/
def cut : Format → List (List Char) → List (List (List Char))
  | .yaml, lines => lines.splitBy fun _ next ↦ !isMark .yaml next
  | .json, lines => lines.splitBy fun line _ ↦ !isMark .json line

/-- The documents of a file. -/
def split (format : Format) (text : String) : List String :=
  (format.cut (Text.lines text.toList)).map fun piece ↦ String.ofList piece.flatten

theorem cut_flatten {format : Format} {pieces : List (List (List Char))}
    (h : ∀ piece ∈ pieces, format.Framed piece) : format.cut pieces.flatten = pieces := by
  cases format with
  | yaml => exact splitBy_opened h
  | json => exact splitBy_closed h

theorem split_join {format : Format} {texts : List String}
    (hend : ∀ text ∈ texts, text.toList.getLast? = some '\n')
    (hframed : ∀ text ∈ texts, format.Framed (Text.lines text.toList)) :
    format.split (String.join texts) = texts := by
  have hlines : Text.lines (String.join texts).toList =
      (texts.map fun text ↦ Text.lines text.toList).flatten := by
    rw [String.toList_join, List.flatMap_def, Text.lines_flatten, List.map_map]
    · rfl
    · simpa using hend
  have hcut : format.cut (Text.lines (String.join texts).toList) =
      texts.map fun text ↦ Text.lines text.toList := by
    rw [hlines, cut_flatten (by simpa using hframed)]
  rw [split, hcut, List.map_map]
  refine (List.map_congr_left fun text _ ↦ ?_).trans (List.map_id texts)
  rw [Function.comp_apply, Text.flatten_lines, String.ofList_toList, id]

end Format

namespace Writer

variable {writer : Writer} {files : Files} {kind : ReportKind} {root : Component}

/-! ### What is written for a tree -/

/-- The text of the report of a tree. -/
def reportText (writer : Writer) (kind : ReportKind) (root : Component) : String :=
  writer.format.render (Report.ofKind kind root)

/-- What is written for the report of a tree. -/
def reportChunk (writer : Writer) (kind : ReportKind) (root : Component) : String :=
  writer.chunk (Report.ofKind kind root)

theorem exists_ending (text : String) :
    ∃ ending, (withFinalNewline text).toList = text.toList ++ ending ∧ Text.Clear '-' ending := by
  rw [withFinalNewline]
  split
  · exact ⟨[], (List.append_nil _).symm, Text.clear_nil⟩
  · exact ⟨['\n'], String.toList_append, Yaml.clear_newline⟩

theorem isMark_of_yaml (h : writer.format = .yaml) (kind : ReportKind) (root : Component) :
    ∀ line ∈ Text.lines (withFinalNewline (writer.reportText kind root)).toList,
      Format.isMark .yaml line = false := by
  intro line hline
  have htext : (writer.reportText kind root).toList =
      Yaml.value 0 (.mapping [(root.name, .mapping (Report.entry kind root))]) := by
    rw [reportText, h, Report.ofKind_eq]
    exact String.toList_ofList
  obtain ⟨ending, hending, hclear⟩ := exists_ending (writer.reportText kind root)
  rw [hending, htext] at hline
  rw [Format.isMark, ← Bool.not_eq_true, List.isPrefixOf_iff_prefix]
  exact Yaml.not_separator_of_mem_lines root.name (Report.entry kind root) hclear line hline

/-- A separator comes first if YAML is appended, and the text ends in a line break. -/
theorem reportChunk_eq (writer : Writer) (kind : ReportKind) (root : Component) :
    writer.reportChunk kind root =
      (if writer.append = true ∧ writer.format = .yaml then "---\n" else "") ++
        withFinalNewline (writer.reportText kind root) := by
  rw [reportChunk, chunk, reportText]
  by_cases happended : writer.append = true ∧ writer.format = .yaml
  · rw [if_pos (by simpa using happended), if_pos happended]
  · rw [if_neg (by simpa using happended), if_neg happended, String.empty_append]

theorem framed_of_yaml (happend : writer.append = true) (hformat : writer.format = .yaml)
    (kind : ReportKind) (root : Component) :
    Format.Framed .yaml (Text.lines (writer.reportChunk kind root).toList) := by
  have hseparator : Text.lines "---\n".toList = [['-', '-', '-', '\n']] := by decide
  rw [reportChunk_eq, if_pos ⟨happend, hformat⟩, String.toList_append,
    Text.lines_append (by decide), hseparator]
  exact ⟨_, _, rfl, by decide, isMark_of_yaml hformat kind root⟩

/-- The text of a report in JSON ends in its closing brace. -/
theorem reportChunk_of_json (h : writer.format = .json) (kind : ReportKind) (root : Component) :
    writer.reportChunk kind root = writer.reportText kind root ++ "\n" ∧
      Format.Framed .json (Text.lines (writer.reportChunk kind root).toList) := by
  have htext : (writer.reportText kind root).toList =
      Json.value 0 (.mapping [(root.name, .mapping (Report.entry kind root))]) := by
    rw [reportText, h, Report.ofKind_eq]
    exact String.toList_ofList
  have hlast : (writer.reportText kind root).toList.getLast? ≠ some '\n' := by
    rw [htext, Json.value, ← List.cons_append, List.getLast?_concat]
    decide
  have hchunk : writer.reportChunk kind root = writer.reportText kind root ++ "\n" := by
    rw [reportChunk_eq, if_neg (by simp [h]), String.empty_append, withFinalNewline, if_neg hlast]
  obtain ⟨body, hlines, hbody⟩ :=
    Json.exists_lines_report root.name (.mapping (Report.entry kind root))
  refine ⟨hchunk, Text.lines body, Json.closing, ?_, by decide, fun line hline ↦ ?_⟩
  · rw [hchunk, String.toList_append, htext]
    exact hlines
  · exact decide_eq_false (hbody line hline)

theorem framed (happend : writer.append = true) (kind : ReportKind) (root : Component) :
    writer.format.Framed (Text.lines (writer.reportChunk kind root).toList) := by
  rcases hformat : writer.format with _ | _
  · exact framed_of_yaml happend hformat kind root
  · exact (reportChunk_of_json hformat kind root).2

/-! ### Runs of writes -/

/-- Writes reports one after the other and goes on after failures: the reports that were written,
in order, and the files after all of them. -/
def writeAll (writer : Writer) :
    List (ReportKind × Component) → Files → List (ReportKind × Component) × Files
  | [], files => ([], files)
  | call :: calls, files =>
    let outcome := writer.write call.1 (Report.ofKind call.1 call.2) files
    let rest := writer.writeAll calls (Outcome.state outcome)
    (if (Outcome.stateIfOk outcome).isOk then call :: rest.1 else rest.1, rest.2)

/-- No write is broken off: one that fails has not opened its file. -/
def GoThrough (writer : Writer) : List (ReportKind × Component) → Files → Prop
  | [], _ => True
  | call :: calls, files =>
    (∀ cause failed, writer.write call.1 (Report.ofKind call.1 call.2) files = .error cause failed →
      writer.openReport call.1 files = .error cause failed) ∧
    writer.GoThrough calls (Outcome.state (writer.write call.1 (Report.ofKind call.1 call.2) files))

theorem goThrough_of_unlimited (h : files.Unlimited) (calls : List (ReportKind × Component)) :
    writer.GoThrough calls files := by
  induction calls generalizing files with
  | nil => trivial
  | cons call calls ih =>
    rw [GoThrough]
    rcases writer.write_cases call.1 (Report.ofKind call.1 call.2) files with
      ⟨cause, hopen, herror, -⟩ | ⟨location, opened, files', -, -, hend, hlimits, -⟩
    · rw [herror]
      refine ⟨fun cause' failed heq ↦ ?_, ih h⟩
      cases heq
      exact hopen
    · rw [hend, Files.ending, h.limit?_eq]
      refine ⟨fun cause failed heq ↦ ?_, ih (h.tail hlimits)⟩
      cases heq

/-- The texts that a file keeps of those that are written to it. -/
def kept (writer : Writer) (texts : List String) : List String :=
  if writer.append then texts else texts.getLast?.toList

/-- What there is of a file after texts were written to it; it was not there before. -/
def held (writer : Writer) (texts : List String) : Option FileEntry :=
  if texts = [] then none else some (.file (String.join (writer.kept texts)).toUTF8)

theorem written_held (writer : Writer) (texts : List String) (text : String) :
    some (Files.written writer.append (writer.held texts) text.toUTF8) =
      writer.held (texts ++ [text]) := by
  have hnew : writer.held (texts ++ [text]) =
      some (.file (String.join (writer.kept (texts ++ [text]))).toUTF8) := if_neg (by simp)
  rw [hnew]
  by_cases htexts : texts = []
  · subst htexts
    rcases happend : writer.append with _ | _ <;> simp [held, kept, Files.written, happend]
  · rw [held, if_neg htexts, Files.written, kept, kept]
    rcases happend : writer.append with _ | _
    · simp
    · simp [String.join_append, String.toByteArray_append]

/-- A write that is not broken off succeeds exactly if its path leads somewhere, and then its text
is added. -/
theorem write_held {texts : List String} (document : Mapping)
    (hwhole : ∀ cause failed, writer.write kind document files = .error cause failed →
      writer.openReport kind files = .error cause failed)
    (h : files.lookUp (writer.path kind writer.format) = writer.held texts) :
    (Outcome.stateIfOk (writer.write kind document files)).isOk =
        (files.place? (writer.path kind writer.format)).isSome ∧
      (Outcome.state (writer.write kind document files)).lookUp (writer.path kind writer.format) =
        writer.held (texts ++
          if (files.place? (writer.path kind writer.format)).isSome then [writer.chunk document]
          else []) := by
  rcases writer.write_cases kind document files with
    ⟨cause, -, herror, hnone | hdirectory⟩ |
    ⟨location, opened, files', hplace, hopen, hend, -, hwrote⟩
  · rw [herror, hnone, Outcome.state]
    exact ⟨rfl, by simpa using h⟩
  · rw [hdirectory, held] at h
    split at h <;> cases h
  · have hlimit : files.limit? (writer.chunk document).toUTF8 = none := by
      rcases hlimit : files.limit? (writer.chunk document).toUTF8 with _ | limit
      · rfl
      · rw [Files.ending, hlimit] at hend
        rw [hwhole _ _ hend] at hopen
        cases hopen
    have hold : files.get? location = writer.held texts := by
      rw [← h, Files.lookUp_of_place hplace]
    have hplace' := (hwrote.sameDirectories.place?_eq _).trans hplace
    rw [hend, Files.ending, hlimit, hplace]
    refine ⟨rfl, ?_⟩
    rw [Outcome.state, Files.lookUp_of_place hplace', hwrote.there, hold,
      Files.taken_of_limit?_eq_none hlimit]
    exact writer.written_held texts _

/-- The file of a report holds what was written of its kind, whatever is written to the other file
in between. All calls of the kind succeed if the path leads somewhere, and else none. -/
theorem lookUp_writeAll {calls : List (ReportKind × Component)} {texts : List String}
    (hwhole : writer.GoThrough calls files)
    (h : files.lookUp (writer.path kind writer.format) = writer.held texts) :
    (writer.writeAll calls files).1.filter (·.1 = kind) =
        (if (files.place? (writer.path kind writer.format)).isSome then
          calls.filter (·.1 = kind) else []) ∧
      (writer.writeAll calls files).2.lookUp (writer.path kind writer.format) =
        writer.held (texts ++ ((writer.writeAll calls files).1.filter (·.1 = kind)).map fun call ↦
          writer.reportChunk kind call.2) := by
  induction calls generalizing files texts with
  | nil => simpa [writeAll] using h
  | cons call calls ih =>
    have hsame := writer.sameDirectories_write call.1 (Report.ofKind call.1 call.2) files
    have hplace := hsame.place?_eq (writer.path kind writer.format)
    obtain ⟨hcall, hwhole⟩ := hwhole
    rw [writeAll]
    dsimp only
    by_cases hkind : call.1 = kind
    · obtain ⟨other, root⟩ := call
      obtain rfl : other = kind := hkind
      obtain ⟨hok, hheld⟩ := write_held (Report.ofKind other root) hcall h
      obtain ⟨hcalls, hlookUp⟩ := ih hwhole hheld
      rw [hplace] at hcalls
      rw [hlookUp, hok, List.append_assoc]
      rcases hsome : (files.place? (writer.path other writer.format)).isSome with _ | _ <;>
        rw [hsome] at hcalls
      · exact ⟨hcalls, rfl⟩
      · simp only [if_pos, List.filter_cons, decide_true, List.map_cons]
        exact ⟨congrArg _ hcalls, rfl⟩
    · have hother : (Outcome.state (writer.write call.1 (Report.ofKind call.1 call.2) files)).lookUp
          (writer.path kind writer.format) = files.lookUp (writer.path kind writer.format) :=
        lookUp_write_of_ne (fun heq ↦ hkind heq.1.symm) _ _
      obtain ⟨hcalls, hlookUp⟩ := ih hwhole (hother.trans h)
      rw [hplace] at hcalls
      rw [List.filter_cons_of_neg (by simpa using hkind)]
      split
      · rw [List.filter_cons_of_neg (by simpa using hkind)]
        exact ⟨hcalls, hlookUp⟩
      · exact ⟨hcalls, hlookUp⟩

end Writer

/-! ### The whole statement -/

/-- Appended reports can be told apart again. Wherever the file of a kind of report is absent and
its path leads somewhere, any calls, with reports of any trees, leave in it the texts of the calls
of that kind in order: all of them when appending, and else the last. No call may be broken off
after it has opened its file. Calls of the other kind do not touch it. A text is the report as it is
rendered, with a line break at its end if it has none yet, and when YAML is appended a line with a
separator comes before it. In each appended text the one line that begins like a separator is the
first in YAML, and the one line with nothing but a closing brace is the last in JSON, so that the
texts are found again in what they are joined to. Without appending, no line begins like a
separator. -/
theorem appended_reports_split (writer : Writer) (kind : ReportKind) {files : Files}
    (habsent : files.lookUp (writer.path kind writer.format) = none)
    (calls : List (ReportKind × Component)) (hwhole : writer.GoThrough calls files) :
    let written := (writer.writeAll calls files).1.filter (·.1 = kind)
    let texts := written.map fun call ↦ writer.reportChunk kind call.2
    written = (if (files.place? (writer.path kind writer.format)).isSome then
        calls.filter (·.1 = kind) else []) ∧
      (writer.writeAll calls files).2.lookUp (writer.path kind writer.format) =
        (if texts = [] then none
          else some (.file (String.join (if writer.append then texts
            else texts.getLast?.toList)).toUTF8)) ∧
      (∀ other root files', other ≠ kind →
        (Outcome.state (writer.write other (Report.ofKind other root) files')).lookUp
          (writer.path kind writer.format) = files'.lookUp (writer.path kind writer.format)) ∧
      (∀ root, writer.reportChunk kind root =
        (if writer.append = true ∧ writer.format = .yaml then "---\n" else "") ++
          Writer.withFinalNewline (writer.reportText kind root)) ∧
      (writer.append = true → writer.format.split (String.join texts) = texts ∧
        ∀ root, writer.format.Framed (Text.lines (writer.reportChunk kind root).toList)) ∧
      (writer.format = .json → ∀ root,
        writer.reportChunk kind root = writer.reportText kind root ++ "\n") ∧
      (writer.format = .yaml → ∀ root,
        ∀ line ∈ Text.lines (Writer.withFinalNewline (writer.reportText kind root)).toList,
          Format.isMark .yaml line = false) := by
  intro written texts
  have hheld : files.lookUp (writer.path kind writer.format) = writer.held [] := habsent
  obtain ⟨hwritten, hlookUp⟩ := Writer.lookUp_writeAll hwhole hheld
  refine ⟨hwritten, ?_, fun other root files' hother ↦ ?_, writer.reportChunk_eq kind,
    fun happend ↦ ⟨?_, writer.framed happend kind⟩,
    fun hformat root ↦ (Writer.reportChunk_of_json hformat kind root).1,
    fun hformat ↦ Writer.isMark_of_yaml hformat kind⟩
  · rw [hlookUp, List.nil_append]
    rfl
  · exact Writer.lookUp_write_of_ne (fun heq ↦ hother heq.1.symm) _ _
  · refine Format.split_join (fun text htext ↦ ?_) fun text htext ↦ ?_
    · obtain ⟨call, -, rfl⟩ := List.mem_map.mp htext
      exact writer.getLast?_chunk _
    · obtain ⟨call, -, rfl⟩ := List.mem_map.mp htext
      exact writer.framed happend kind call.2

/-- Names that look like a separator and like a closing brace, in a file with another report after
it: the two reports are told apart. -/
theorem appended_reports_split_sample :
    let writer : Writer := ⟨"", .yaml, true⟩
    let root : Component := ⟨"---", .container, [.container "\x7d"]⟩
    let calls := [(ReportKind.architecture, root), (.actionCounts, root),
      (.architecture, .container "a")]
    let texts := ["---\n'---':\n  '\x7d': \x7b\x7d\n", "---\na: \x7b\x7d\n"]
    Files.empty.lookUp (writer.path .architecture .yaml) = none ∧
      writer.GoThrough calls Files.empty ∧
      (writer.writeAll calls Files.empty).2.lookUp (writer.path .architecture .yaml) =
        some (.file (String.join texts).toUTF8) ∧
      Format.split .yaml (String.join texts) = texts := by
  intro writer root calls texts
  have habsent : Files.empty.lookUp (writer.path .architecture .yaml) = none := rfl
  have hwhole : writer.GoThrough calls Files.empty :=
    Writer.goThrough_of_unlimited Files.unlimited_empty calls
  obtain ⟨hwritten, hlookUp, -, -, happended, -⟩ :=
    appended_reports_split writer .architecture habsent calls hwhole
  have htexts : (((writer.writeAll calls Files.empty).1.filter (·.1 = .architecture)).map fun call ↦
      writer.reportChunk .architecture call.2) = texts := by
    rw [hwritten]
    decide
  rw [htexts] at hlookUp happended
  exact ⟨habsent, hwhole, hlookUp, (happended rfl).1⟩

/-- A literal block whose text ends in a separator of lines gets no line break from YAML. The break
that follows it in the file is not part of the report. -/
theorem report_without_final_break :
    let writer : Writer := ⟨"", .yaml, true⟩
    let root : Component :=
      ⟨"l", .leaf ⟨"x", .ofList [("k", "a\n\u2028")], ⟨[], by decide⟩, ⟨[]⟩⟩, []⟩
    let file := (writer.writeAll [(.architecture, root)] Files.empty).2.lookUp
      (writer.path .architecture .yaml)
    let text := writer.reportText .architecture root
    Reachable root ∧ Files.empty.lookUp (writer.path .architecture .yaml) = none ∧
      file = some (.file ("---\n" ++ text ++ "\n").toUTF8) ∧
      file ≠ some (.file ("---\n" ++ text).toUTF8) := by
  intro writer root file text
  have hleaf : Component.leaf "l" "x" (.ofList [("k", "a\n\u2028")]) ⟨[], by decide⟩ = .ok root :=
    rfl
  have hchunk : writer.reportChunk .architecture root = "---\n" ++ text ++ "\n" := by
    have hlast : text.toList.getLast? ≠ some '\n' := by decide
    rw [Writer.reportChunk_eq, if_pos ⟨rfl, rfl⟩, Writer.withFinalNewline, if_neg hlast,
      String.append_assoc]
  have hfile : file = some (.file ("---\n" ++ text ++ "\n").toUTF8) := by
    have hheld : Files.empty.lookUp (writer.path .architecture .yaml) = writer.held [] := rfl
    have hwhole : writer.GoThrough [(.architecture, root)] Files.empty :=
      Writer.goThrough_of_unlimited Files.unlimited_empty _
    obtain ⟨hwritten, hlookUp⟩ := Writer.lookUp_writeAll hwhole hheld
    have hcalls : ((writer.writeAll [(.architecture, root)] Files.empty).1.filter
        (·.1 = .architecture)) = [(.architecture, root)] := by
      rw [hwritten]
      decide
    rw [hcalls, List.nil_append, List.map_singleton, hchunk] at hlookUp
    exact hlookUp
  refine ⟨.leaf hleaf, rfl, hfile, fun hother ↦ ?_⟩
  rw [hfile, Option.some.injEq, FileEntry.file.injEq, String.toUTF8, String.toUTF8,
    String.toByteArray_inj] at hother
  have hlength := congrArg String.length hother
  simp at hlength

end CountTree
