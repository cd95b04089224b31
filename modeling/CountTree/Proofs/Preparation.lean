import CountTree.Proofs.Calls
import CountTree.Proofs.FileWrites
import CountTree.Proofs.MadeDirectories

/-!
Which reports there are in a directory. `Writer.Leaves` names the kinds that are left and says that
each of their files holds just one document. To prepare a directory is to make it and to remove the
reports in it, in either format; what is not a regular file stays, and so no report is left
(`Writer.prepare_cases`). A report that is written then is the one document of its file, whether or
not it is appended, or the file holds its beginning where the write is broken off
(`Writer.LeavesPart`); the others are not touched (`Writer.Leaves.write_cases`).
-/

set_option autoImplicit false
set_option relaxedAutoImplicit false

namespace CountTree

namespace Files

variable {files files' : Files} {path : Path} {location : Location}

theorem isFile_eq_false_iff : files.isFile path = false ↔
    ∀ content, files.lookUp path ≠ some (.file content) := by
  rw [← Bool.not_eq_true, isFile_iff, not_exists]

/-- A path leads to a regular file at this location. -/
def FileAt (files : Files) (path : Path) (location : Location) : Prop :=
  files.place? path = some location ∧ ∃ content, files.get? location = some (.file content)

theorem isFile_iff_fileAt : files.isFile path = true ↔ ∃ location, files.FileAt path location := by
  rw [isFile_iff, lookUp_eq]
  constructor
  · rintro ⟨content, hcontent⟩
    obtain ⟨location, hplace, hentry⟩ := Option.bind_eq_some_iff.mp hcontent
    exact ⟨location, hplace, content, hentry⟩
  · rintro ⟨location, hplace, content, hentry⟩
    exact ⟨content, by rw [hplace, Option.bind_some, hentry]⟩

theorem FileAt.not_directory (h : files.FileAt path location) :
    files.get? location ≠ some .directory := by
  obtain ⟨-, content, hcontent⟩ := h
  rw [hcontent]
  nofun

theorem FileAt.removeFile_eq (h : files.FileAt path location) :
    removeFile path files = .ok () (files.remove location) := by
  obtain ⟨hplace, content, hcontent⟩ := h
  rw [removeFile, locate_of_place hplace]
  dsimp only
  rw [hcontent]

/-- The regular files are those from before, save the one that was removed. -/
theorem fileAt_remove_iff (hdirectory : files.get? location ≠ some .directory)
    {other : Location} :
    (files.remove location).FileAt path other ↔ files.FileAt path other ∧ other ≠ location := by
  rw [FileAt, FileAt, (SameDirectories.remove hdirectory).place?_eq]
  by_cases hother : other = location
  · rw [hother, get?_remove_self files (ne_nil_of_get? hdirectory)]
    simp
  · rw [get?_remove_of_ne files hother]
    simp [hother]

theorem isFile_congr (h : files'.lookUp path = files.lookUp path) :
    files'.isFile path = files.isFile path := by
  rw [isFile, isFile, h]

/-! ### The same devices -/

/-- The devices of both file systems are the same. -/
def SameDevices (files files' : Files) : Prop := ∀ location content,
  files'.get? location = some (.device content) ↔ files.get? location = some (.device content)

theorem SameDevices.refl (files : Files) : SameDevices files files := fun _ _ ↦ .rfl

theorem SameDevices.trans {files'' : Files} (h : SameDevices files files')
    (h' : SameDevices files' files'') : SameDevices files files'' := fun location content ↦
  (h' location content).trans (h location content)

/-- A change at one location changes no device if it does not change one there. -/
theorem SameDevices.of_elsewhere
    (helsewhere : ∀ other, other ≠ location → files'.get? other = files.get? other)
    (h : ∀ content, files'.get? location = some (.device content) ↔
      files.get? location = some (.device content)) : SameDevices files files' := by
  intro other content
  by_cases hother : other = location
  · rw [hother]
    exact h content
  · rw [helsewhere other hother]

theorem MoreDirectories.sameDevices {places : List Location}
    (h : MoreDirectories places files files') : SameDevices files files' := fun _ _ ↦
  h.get?_iff nofun

end Files

namespace Writer

variable {writer : Writer} {before files : Files} {kind : ReportKind}

/-! ### Preparing the directory -/

/-- The regular files of some reports are gone, and that is all the difference. -/
structure Cleared (writer : Writer) (reports : List (ReportKind × Format)) (files files' : Files) :
    Prop where
  same : Files.SameDirectories files files'
  limits_eq : files'.limits = files.limits
  gone : ∀ report ∈ reports, ∀ location,
    files.FileAt (writer.path report.1 report.2) location → files'.get? location = none
  kept : ∀ location,
    (∀ report ∈ reports, ¬ files.FileAt (writer.path report.1 report.2) location) →
      files'.get? location = files.get? location

namespace Cleared

variable {reports : List (ReportKind × Format)} {report : ReportKind × Format} {files' : Files}
  {location : Location}

theorem nil (writer : Writer) (files : Files) : writer.Cleared [] files files :=
  ⟨.refl files, rfl, fun _ h ↦ absurd h List.not_mem_nil, fun _ _ ↦ rfl⟩

theorem cons_of_fileAt (hfile : files.FileAt (writer.path report.1 report.2) location)
    (h : writer.Cleared reports (files.remove location) files') :
    writer.Cleared (report :: reports) files files' := by
  have hdirectory := hfile.not_directory
  have hremoved : files'.get? location = none := by
    rw [h.kept location, Files.get?_remove_self files (Files.ne_nil_of_get? hdirectory)]
    exact fun other _ hother ↦ ((Files.fileAt_remove_iff hdirectory).mp hother).2 rfl
  refine ⟨(Files.SameDirectories.remove hdirectory).trans h.same, h.limits_eq,
    fun other hmem place hplace ↦ ?_, fun place hnone ↦ ?_⟩
  · by_cases heq : place = location
    · rw [heq, hremoved]
    · have hrest : other ∈ reports := by
        rcases List.mem_cons.mp hmem with rfl | hrest
        · exact absurd (Option.some.inj (hplace.1.symm.trans hfile.1)) heq
        · exact hrest
      exact h.gone other hrest place ((Files.fileAt_remove_iff hdirectory).mpr ⟨hplace, heq⟩)
  · have hne : place ≠ location := fun heq ↦ hnone report List.mem_cons_self (heq ▸ hfile)
    rw [h.kept place, Files.get?_remove_of_ne files hne]
    exact fun other hmem hother ↦ hnone other (List.mem_cons_of_mem _ hmem)
      ((Files.fileAt_remove_iff hdirectory).mp hother).1

theorem cons_of_not_isFile (hfile : ¬ files.isFile (writer.path report.1 report.2) = true)
    (h : writer.Cleared reports files files') :
    writer.Cleared (report :: reports) files files' where
  same := h.same
  limits_eq := h.limits_eq
  gone := List.forall_mem_cons.mpr
    ⟨fun location hother ↦ absurd (Files.isFile_iff_fileAt.mpr ⟨location, hother⟩) hfile, h.gone⟩
  kept location hnone := h.kept location (List.forall_mem_cons.mp hnone).2

/-- What is there afterwards was there before. -/
theorem get?_of_some (h : writer.Cleared reports files files') {entry : FileEntry}
    (hentry : files'.get? location = some entry) : files.get? location = some entry := by
  rw [← h.kept location, hentry]
  intro report hreport hfile
  rw [h.gone report hreport location hfile] at hentry
  cases hentry

theorem isFile_eq_false (h : writer.Cleared reports files files') {format : Format}
    (hreport : (kind, format) ∈ reports) : files'.isFile (writer.path kind format) = false := by
  rw [← Bool.not_eq_true, Files.isFile_iff_fileAt]
  rintro ⟨location, hplace, content, hcontent⟩
  rw [h.same.place?_eq] at hplace
  rw [h.gone _ hreport location ⟨hplace, content, h.get?_of_some hcontent⟩] at hcontent
  cases hcontent

theorem sameDevices (h : writer.Cleared reports files files') :
    Files.SameDevices files files' := by
  refine fun location content ↦ ⟨h.get?_of_some, fun hdevice ↦ ?_⟩
  rw [h.kept location, hdevice]
  rintro report - ⟨-, content', hcontent⟩
  rw [hdevice] at hcontent
  cases hcontent

end Cleared

variable {reports : List (ReportKind × Format)}

/-- Of some reports, those that are regular files are removed in their order, and this does not
fail. -/
theorem removeReports_exact (writer : Writer) (hnodup : reports.Nodup) (files : Files) :
    ∃ files', writer.removeReports reports files =
        .ok ((reports.filter fun report ↦ files.isFile (writer.path report.1 report.2)).map
          fun report ↦ writer.shownPath report.1.stem report.2) files' ∧
      writer.Cleared reports files files' := by
  induction reports generalizing files with
  | nil => exact ⟨files, rfl, .nil writer files⟩
  | cons report reports ih =>
    obtain ⟨kind, format⟩ := report
    obtain ⟨hnew, hnodup⟩ := List.nodup_cons.mp hnodup
    rw [removeReports]
    dsimp only
    by_cases hfile : files.isFile (writer.path kind format) = true
    · obtain ⟨location, hlocation⟩ := Files.isFile_iff_fileAt.mp hfile
      -- The other reports lie elsewhere, and so it does not matter that one is gone already.
      have hothers : ∀ report ∈ reports, (files.remove location).isFile
          (writer.path report.1 report.2) = files.isFile (writer.path report.1 report.2) := by
        refine fun report hreport ↦ Files.isFile_congr
          (Files.lookUp_remove_of_ne hlocation.not_directory fun hother ↦ hnew ?_)
        obtain ⟨hkind, hformat⟩ := place_inj hother hlocation.1
        rwa [← hkind, ← hformat]
      obtain ⟨files', hrest, hcleared⟩ := ih hnodup (files.remove location)
      refine ⟨files', ?_, hcleared.cons_of_fileAt hlocation⟩
      rw [if_pos hfile, hlocation.removeFile_eq]
      dsimp only
      rw [hrest, List.filter_congr hothers, List.filter_cons_of_pos (by exact hfile),
        List.map_cons]
    · obtain ⟨files', hrest, hcleared⟩ := ih hnodup files
      refine ⟨files', ?_, hcleared.cons_of_not_isFile hfile⟩
      rw [if_neg hfile, hrest, List.filter_cons_of_neg (by exact hfile)]

/-- Where no report is a regular file there is nothing to remove. -/
theorem removeReports_of_forall_not
    (h : ∀ report ∈ reports, files.isFile (writer.path report.1 report.2) = false) :
    writer.removeReports reports files = .ok [] files := by
  induction reports with
  | nil => rfl
  | cons report reports ih =>
    obtain ⟨hreport, hrest⟩ := List.forall_mem_cons.mp h
    obtain ⟨kind, format⟩ := report
    rw [removeReports]
    dsimp only
    rw [if_neg (by rw [hreport]; exact Bool.false_ne_true), ih hrest]

theorem nodup_reports : Writer.reports.Nodup := by decide

theorem mem_reports (kind : ReportKind) (format : Format) : (kind, format) ∈ Writer.reports := by
  cases kind <;> cases format <;> decide

/-- All places on the way to the writer's directory. -/
def wayTo (writer : Writer) (files : Files) : List Location :=
  let path := Path.ofText writer.directory
  Files.along (files.start path) path.names

/-- To prepare a directory is to make it, with the directories that lead to it, and then to remove
the reports in it that are regular files. Only the first part can fail. -/
theorem prepare_eq (writer : Writer) (files : Files) :
    let path := Path.ofText writer.directory
    (∃ cause made, Files.makeDirectories path files = .error cause made ∧
        writer.prepare files = .error cause made ∧
        Files.MoreDirectories (writer.wayTo files) files made) ∨
      ∃ made prepared, Files.makeDirectories path files = .ok () made ∧
        writer.prepare files = .ok ((Writer.reports.filter fun report ↦
          made.isFile (writer.path report.1 report.2)).map
            fun report ↦ writer.shownPath report.1.stem report.2) prepared ∧
        Files.MoreDirectories (writer.wayTo files) files made ∧
        (path.isEmpty = true ∨ made.isDirectory path = true) ∧
        writer.Cleared Writer.reports made prepared := by
  intro path
  rcases Files.makeDirectories_cases path files with
    ⟨cause, made, hmade, hmore⟩ | ⟨made, hmade, hmore, hthere⟩
  · exact .inl ⟨cause, made, hmade, Run.bind_of_error hmade, hmore⟩
  · obtain ⟨prepared, hremove, hcleared⟩ := writer.removeReports_exact nodup_reports made
    exact .inr ⟨made, prepared, hmade, (Run.bind_of_ok hmade).trans hremove, hmore, hthere,
      hcleared⟩

/-! ### What reports are left -/

/-- The file of a report holds these bytes and nothing else. A device that had its name before holds
what it held. -/
def HoldsBytes (writer : Writer) (before after : Files) (kind : ReportKind)
    (content : ByteArray) : Prop :=
  ∃ location, after.place? (writer.path kind writer.format) = some location ∧
    after.get? location = match before.get? location with
      | some (.device held) => some (.device held)
      | _ => some (.file content)

/-- The file of a report holds one document and nothing else. -/
def Holds (writer : Writer) (before after : Files) (kind : ReportKind) (document : Mapping) :
    Prop :=
  writer.HoldsBytes before after kind (writer.chunk document).toUTF8

/-- The file of a report holds the beginning of one document, but not the whole of it. -/
def HoldsPart (writer : Writer) (before after : Files) (kind : ReportKind) (document : Mapping) :
    Prop :=
  let content := (writer.chunk document).toUTF8
  ∃ room < content.size, writer.HoldsBytes before after kind (content.extract 0 room)

/-- Of all reports, just these kinds are left, in the writer's format, and they are of this design.
The devices are those from before. -/
structure Leaves (writer : Writer) (before after : Files) (kinds : List ReportKind)
    (design : Component) : Prop where
  devices : Files.SameDevices before after
  holds : ∀ kind ∈ kinds, writer.Holds before after kind (Report.ofKind kind design)
  others : ∀ kind format, ¬ (kind ∈ kinds ∧ format = writer.format) →
    after.isFile (writer.path kind format) = false

/-- Of all reports, just these kinds are left, and of one more kind a beginning. -/
structure LeavesPart (writer : Writer) (before after : Files) (kinds : List ReportKind)
    (part : ReportKind) (design : Component) : Prop where
  devices : Files.SameDevices before after
  holds : ∀ kind ∈ kinds, writer.Holds before after kind (Report.ofKind kind design)
  holdsPart : writer.HoldsPart before after part (Report.ofKind part design)
  others : ∀ kind format, ¬ (kind ∈ part :: kinds ∧ format = writer.format) →
    after.isFile (writer.path kind format) = false

/-- A directory that was prepared has no report left. -/
theorem prepare_cases (writer : Writer) (files : Files) (design : Component) :
    (∃ cause files', writer.prepare files = .error cause files') ∨
      ∃ removed files', writer.prepare files = .ok removed files' ∧
        files'.limits = files.limits ∧ writer.Leaves files files' [] design := by
  rcases writer.prepare_eq files with
    ⟨cause, made, -, herror, -⟩ | ⟨made, prepared, -, hok, hmore, -, hcleared⟩
  · exact .inl ⟨cause, made, herror⟩
  · exact .inr ⟨_, prepared, hok, hcleared.limits_eq.trans hmore.limits_eq,
      hmore.sameDevices.trans hcleared.sameDevices, fun _ h ↦ absurd h List.not_mem_nil,
      fun kind format _ ↦ hcleared.isFile_eq_false (mem_reports kind format)⟩

theorem sameDevices_write (writer : Writer) (kind : ReportKind) (document : Mapping)
    (files : Files) : files.SameDevices (Outcome.state (writer.write kind document files)) := by
  rcases writer.write_cases kind document files with
    ⟨cause, -, herror, -⟩ | ⟨location, -, files', -, -, hend, -, hwrote⟩
  · rw [herror]
    exact .refl files
  · rw [hend, Files.state_ending]
    refine .of_elsewhere hwrote.elsewhere fun content ↦ ?_
    rw [hwrote.there]
    rcases files.get? location with _ | _ | _ | _ <;> simp [Files.written]

/-- Where no device had its name, the file of a report is a regular one. -/
theorem HoldsBytes.isFile {content : ByteArray} (h : writer.HoldsBytes before files kind content)
    (hdevice : ∀ location held, before.get? location ≠ some (.device held)) :
    files.isFile (writer.path kind writer.format) = true := by
  obtain ⟨location, hplace, hentry⟩ := h
  refine Files.isFile_iff_fileAt.mpr ⟨location, hplace, content, hentry.trans ?_⟩
  split
  · exact absurd ‹_› (hdevice _ _)
  · rfl

/-- What another report has left stays when one is written. -/
theorem HoldsBytes.write {content : ByteArray} (h : writer.HoldsBytes before files kind content)
    {kind' : ReportKind} (hkind : kind' ≠ kind) (other : Mapping) :
    writer.HoldsBytes before (Outcome.state (writer.write kind' other files)) kind content := by
  obtain ⟨location, hplace, hentry⟩ := h
  have hsame := writer.sameDirectories_write kind' other files
  have hplace' := (hsame.place?_eq (writer.path kind writer.format)).trans hplace
  refine ⟨location, hplace', ?_⟩
  rw [← Files.lookUp_of_place hplace', lookUp_write_of_ne (fun heq ↦ hkind heq.1.symm),
    Files.lookUp_of_place hplace, hentry]

/-- Where no regular file stood, what is taken of a document is all that there is, also in an
appended file. -/
theorem write_fresh_cases (hdevices : Files.SameDevices before files)
    (hfresh : files.isFile (writer.path kind writer.format) = false) (document : Mapping) :
    let content := (writer.chunk document).toUTF8
    (∃ cause, writer.openReport kind files = .error cause files ∧
        writer.write kind document files = .error cause files) ∨
      ∃ location opened files', writer.openReport kind files = .ok location opened ∧
        writer.write kind document files =
          files.ending content (writer.shownPath kind.stem writer.format) files' ∧
        files'.limits = files.limits.tail ∧
        writer.HoldsBytes before files' kind (files.taken content) := by
  intro content
  rcases writer.write_cases kind document files with
    ⟨cause, hopen, herror, -⟩ | ⟨location, opened, files', hplace, hopen, hend, hlimits, hwrote⟩
  · exact .inl ⟨cause, hopen, herror⟩
  · refine .inr ⟨location, opened, files', hopen, hend, hlimits, location,
      (hwrote.sameDirectories.place?_eq _).trans hplace, ?_⟩
    rw [Files.isFile_eq_false_iff, Files.lookUp_of_place hplace] at hfresh
    rw [hwrote.there]
    rcases hentry : files.get? location with _ | held | _ | held
    · split
      · rename_i held hdevice
        rw [(hdevices location held).mpr hdevice] at hentry
        cases hentry
      · rfl
    · exact absurd hentry (hfresh held)
    · exact absurd hentry hwrote.not_directory
    · rw [(hdevices location held).mp hentry]
      rfl

namespace Leaves

variable {kinds : List ReportKind} {design : Component}

/-- One more report leaves those that there are, and adds none of another kind. -/
theorem kept_of_write (h : writer.Leaves before files kinds design) (hkind : kind ∉ kinds)
    (document : Mapping) :
    let after := Outcome.state (writer.write kind document files)
    before.SameDevices after ∧
      (∀ other ∈ kinds, writer.Holds before after other (Report.ofKind other design)) ∧
      ∀ other format, ¬ (other ∈ kind :: kinds ∧ format = writer.format) →
        after.isFile (writer.path other format) = false := by
  refine ⟨h.devices.trans (writer.sameDevices_write _ _ _), fun other hother ↦ ?_,
    fun other format hne ↦ ?_⟩
  · have hne : kind ≠ other := fun heq ↦ hkind (heq ▸ hother)
    exact (h.holds other hother).write hne _
  · rw [List.mem_cons] at hne
    have hother : ¬ (other = kind ∧ format = writer.format) := fun heq ↦ hne ⟨.inl heq.1, heq.2⟩
    rw [Files.isFile_congr (lookUp_write_of_ne hother _ files)]
    exact h.others other format fun hmem ↦ hne ⟨.inr hmem.1, hmem.2⟩

/-- A report whose file can be opened comes to those that are left: the whole of it, or only its
beginning where its write is broken off. -/
theorem write_cases (h : writer.Leaves before files kinds design) (hkind : kind ∉ kinds) :
    let document := Report.ofKind kind design
    let limit? := files.limit? (writer.chunk document).toUTF8
    (∃ cause, writer.openReport kind files = .error cause files ∧
        writer.write kind document files = .error cause files) ∨
      (∃ files', limit? = none ∧ writer.write kind document files =
          .ok (writer.shownPath kind.stem writer.format) files' ∧
        files'.limits = files.limits.tail ∧ writer.Leaves before files' (kind :: kinds) design) ∨
      ∃ limit location opened files', limit? = some limit ∧
        writer.openReport kind files = .ok location opened ∧
        writer.write kind document files = .error limit.cause files' ∧
        writer.LeavesPart before files' kinds kind design := by
  intro document limit?
  obtain ⟨hdevices, hkept, hothers⟩ := h.kept_of_write hkind document
  rcases write_fresh_cases h.devices (h.others kind writer.format fun hmem ↦ hkind hmem.1)
    document with ⟨cause, hopen, herror⟩ | ⟨location, opened, files', hopen, hend, hlimits, hholds⟩
  · exact .inl ⟨cause, hopen, herror⟩
  · rw [hend, Files.state_ending] at hdevices hkept hothers
    rw [Files.ending] at hend
    rcases hlimit : files.limit? (writer.chunk document).toUTF8 with _ | limit <;>
      rw [hlimit] at hend
    · rw [Files.taken_of_limit?_eq_none hlimit] at hholds
      exact .inr (.inl ⟨files', hlimit, hend, hlimits, hdevices,
        List.forall_mem_cons.mpr ⟨hholds, hkept⟩, hothers⟩)
    · obtain ⟨hroom, htaken⟩ := Files.taken_of_limit?_eq_some hlimit
      rw [htaken] at hholds
      exact .inr (.inr ⟨limit, location, opened, files', hlimit, hopen, hend, hdevices, hkept,
        ⟨limit.room, hroom, hholds⟩, hothers⟩)

/-- Designs with the same reports of these kinds leave the same. -/
theorem congr {design' : Component} (h : writer.Leaves before files kinds design)
    (hdesign : ∀ kind ∈ kinds, Report.ofKind kind design' = Report.ofKind kind design) :
    writer.Leaves before files kinds design' where
  devices := h.devices
  holds kind hkind := hdesign kind hkind ▸ h.holds kind hkind
  others := h.others

end Leaves

end Writer

namespace Runner

variable {α : Type} {runner next : Runner} {files files' : Files}

theorem onRunner_of_ok {step : Run RunError Runner α} {value : α}
    (h : step runner = .ok value next) (files : Files) :
    onRunner step (runner, files) = .ok value (next, files) := by
  rw [onRunner_eq, h]
  rfl

theorem onRunner_of_error {step : Run RunError Runner α} {cause : RunError}
    (h : step runner = .error cause next) (files : Files) :
    onRunner step (runner, files) = .error cause (next, files) := by
  rw [onRunner_eq, h]
  rfl

theorem onFiles_of_ok {step : Run FileError Files α} {value : α}
    (h : step files = .ok value files') :
    onFiles step (runner, files) = .ok value (runner, files') := by
  rw [onFiles, Run.onSnd, Run.onPart, Run.mapError, h]
  rfl

theorem onFiles_of_error {step : Run FileError Files α} {failure : FileError}
    (h : step files = .error failure files') :
    onFiles step (runner, files) = .error (.file failure) (runner, files') := by
  rw [onFiles, Run.onSnd, Run.onPart, Run.mapError, h]
  rfl

/-- Before the jobs of a reported run, the architecture is the only report that is left. -/
theorem announce_cases (writer : Writer) (runner : Runner) (files : Files) :
    (∃ failure files', announce writer (runner, files) = .error (.file failure) (runner, files')) ∨
      ∃ files', announce writer (runner, files) =
          .ok (writer.shownPath ReportKind.architecture.stem writer.format) (runner, files') ∧
        files'.limits = files.limits.tail ∧
        writer.Leaves files files' [.architecture] runner.design := by
  rw [announce]
  rcases writer.prepare_cases files runner.design with
    ⟨cause, made, hprepare⟩ | ⟨removed, made, hprepare, hlimits, hempty⟩
  · exact .inl ⟨cause, made, Run.bind_of_error (onFiles_of_error hprepare)⟩
  · rw [Run.bind_of_ok (onFiles_of_ok hprepare), report_eq]
    have hnew : ReportKind.architecture ∉ [] := List.not_mem_nil
    rcases hempty.write_cases hnew with ⟨cause, -, hwrite⟩ |
      ⟨files', -, hwrite, hlimits', hleaves⟩ | ⟨limit, -, -, files', -, -, hwrite, -⟩
    · exact .inl ⟨cause, made, onFiles_of_error hwrite⟩
    · exact .inr ⟨files', onFiles_of_ok hwrite, hlimits'.trans (hlimits ▸ rfl), hleaves⟩
    · exact .inl ⟨limit.cause, files', onFiles_of_error hwrite⟩

end Runner

end CountTree
