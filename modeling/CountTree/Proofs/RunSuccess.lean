import CountTree.Proofs.ReportedRun

/-!
When a reported run succeeds. It does exactly if the directory can be made, the files of both
reports can be opened in it (`Writer.CanReport`), neither report is broken off
(`Writer.TakesReports`) and every job is in range (`Serving.runAndReport_of_canReport` and
`Serving.canReport_of_runAndReport`). To remove the reports of an earlier run leaves all
directories, and with them every place that can be opened, so that it does not matter when the files
are looked at.
-/

set_option autoImplicit false
set_option relaxedAutoImplicit false

namespace CountTree

namespace Files

variable {files files' : Files} {path : Path}

/-- Whether a file can be opened for writing: its path leads somewhere, and not to a directory. -/
def Opens (files : Files) (path : Path) : Prop :=
  ∃ location, files.place? path = some location ∧ files.get? location ≠ some .directory

theorem SameDirectories.opens_iff (h : SameDirectories files files') (path : Path) :
    files'.Opens path ↔ files.Opens path := by
  simp only [Opens, h.place?_eq, ne_eq, h.directory_iff]

end Files

namespace Writer

variable {writer : Writer} {before files : Files} {kind : ReportKind}

/-- The output directory can be made, and then the files of both reports can be opened in it. -/
def CanReport (writer : Writer) (files : Files) : Prop :=
  ∃ made, Files.makeDirectories (Path.ofText writer.directory) files = .ok () made ∧
    ∀ kind, ∃ location opened, writer.openReport kind made = .ok location opened

/-- The architecture of a design is not broken off when it is written first, and neither are the
counts of another when they are written next. -/
def TakesReports (writer : Writer) (files : Files) (design final : Component) : Prop :=
  files.limit? (writer.chunk (Report.architecture design)).toUTF8 = none ∧
    { files with limits := files.limits.tail }.limit?
      (writer.chunk (Report.actionCounts final)).toUTF8 = none

theorem takesReports_of_unlimited (h : files.Unlimited) (design final : Component) :
    writer.TakesReports files design final :=
  ⟨h.limit?_eq _, (h.tail rfl : Files.Unlimited { files with limits := _ }).limit?_eq _⟩

/-- Counts are always broken off where there is no room at all for them. -/
theorem not_takesReports_of_no_room {first : Option Limit} {cause : FileError}
    {rest : List (Option Limit)} (hlimits : files.limits = first :: some ⟨0, cause⟩ :: rest)
    (design final : Component) : ¬ writer.TakesReports files design final := by
  rintro ⟨-, hnone⟩
  have hnext : { files with limits := files.limits.tail : Files }.limits =
      some ⟨0, cause⟩ :: rest := by rw [hlimits, List.tail_cons]
  rw [Files.limit?_of_cons hnext (writer.size_chunk_pos _)] at hnone
  cases hnone

/-! ### Writing -/

theorem opens_iff : (∃ location opened, writer.openReport kind files = .ok location opened) ↔
    files.Opens (writer.path kind writer.format) := by
  rcases Files.openFile_cases (writer.path kind writer.format) writer.append files with
    ⟨cause, herror, hreason⟩ | ⟨location, opened, hplace, hopen, -, hwrote⟩
  · refine iff_of_false ?_ ?_
    · rintro ⟨location, opened, hok⟩
      rw [openReport, herror] at hok
      cases hok
    · rintro ⟨location, hplace, hdirectory⟩
      rcases hreason with hnone | hlookUp
      · rw [hplace] at hnone
        cases hnone
      · rw [Files.lookUp_of_place hplace] at hlookUp
        exact hdirectory hlookUp
  · exact iff_of_true ⟨location, opened, hopen⟩ ⟨location, hplace, hwrote.not_directory⟩

/-- A write that succeeds has opened its file and was not broken off. -/
theorem opens_of_write {document : Mapping} {shown : String} {files' : Files}
    (h : writer.write kind document files = .ok shown files') :
    files.Opens (writer.path kind writer.format) ∧
      files.limit? (writer.chunk document).toUTF8 = none ∧ files'.limits = files.limits.tail := by
  rcases writer.write_cases kind document files with
    ⟨cause, -, herror, -⟩ | ⟨location, opened, written, hplace, -, hend, hlimits, hwrote⟩
  · rw [h] at herror
    cases herror
  · rw [h, Files.ending] at hend
    split at hend
    · cases hend
      exact ⟨⟨location, hplace, hwrote.not_directory⟩, ‹_›, hlimits⟩
    · cases hend

/-- A report that can be opened and is not broken off comes to those that are left. -/
theorem Leaves.write_of_opens {kinds : List ReportKind} {design : Component}
    (h : writer.Leaves before files kinds design) (kind : ReportKind) (hkind : kind ∉ kinds)
    (hopens : files.Opens (writer.path kind writer.format))
    (hlimit : files.limit? (writer.chunk (Report.ofKind kind design)).toUTF8 = none) :
    ∃ files', writer.write kind (Report.ofKind kind design) files =
        .ok (writer.shownPath kind.stem writer.format) files' ∧
      files'.limits = files.limits.tail ∧
      writer.Leaves before files' (kind :: kinds) design ∧ files.SameDirectories files' := by
  have hsame := writer.sameDirectories_write kind (Report.ofKind kind design) files
  rcases h.write_cases hkind with ⟨cause, herror, -⟩ | ⟨files', -, hok, hlimits, hleaves⟩ |
    ⟨limit, -, -, -, hsome, -⟩
  · obtain ⟨location, opened, hopen⟩ := opens_iff.mpr hopens
    rw [herror] at hopen
    cases hopen
  · rw [hok] at hsame
    exact ⟨files', hok, hlimits, hleaves, hsame⟩
  · rw [hlimit] at hsome
    cases hsome

/-! ### Preparing -/

/-- A directory that can be made can be prepared, and then has the same places. -/
theorem prepare_of_made {made : Files}
    (hmade : Files.makeDirectories (Path.ofText writer.directory) files = .ok () made) :
    ∃ removed prepared, writer.prepare files = .ok removed prepared ∧
      made.SameDirectories prepared := by
  rcases writer.prepare_eq files with
    ⟨cause, failed, herror, -⟩ | ⟨_, prepared, hok, hprepare, -, -, hcleared⟩
  · rw [hmade] at herror
    cases herror
  · rw [hmade] at hok
    cases hok
    exact ⟨_, prepared, hprepare, hcleared.same⟩

theorem made_of_prepare {removed : List String} {prepared : Files}
    (h : writer.prepare files = .ok removed prepared) :
    ∃ made, Files.makeDirectories (Path.ofText writer.directory) files = .ok () made ∧
      made.SameDirectories prepared ∧ prepared.limits = files.limits := by
  rcases writer.prepare_eq files with
    ⟨cause, failed, -, herror, -⟩ | ⟨made, _, hmade, hprepare, hmore, -, hcleared⟩
  · rw [h] at herror
    cases herror
  · rw [h] at hprepare
    cases hprepare
    exact ⟨made, hmade, hcleared.same, hcleared.limits_eq.trans hmore.limits_eq⟩

end Writer

namespace Runner

variable {start runner : Runner} {log : List CompletedJob} {jobs : List Job} {writer : Writer}
  {files : Files}

/-! ### Steps that succeed -/

theorem onFiles_eq_ok {α : Type} {step : Run FileError Files α} {world world' : World} {value : α}
    (h : onFiles step world = .ok value world') :
    step world.2 = .ok value world'.2 ∧ world'.1 = world.1 := by
  rw [onFiles, Run.onSnd, Run.onPart, Run.mapError] at h
  rcases hstep : step world.2 with ⟨found, files⟩ | ⟨cause, files⟩ <;> rw [hstep] at h <;> cases h
  exact ⟨rfl, rfl⟩

theorem onRunner_eq_ok {α : Type} {step : Run RunError Runner α} {world world' : World} {value : α}
    (h : onRunner step world = .ok value world') :
    step world.1 = .ok value world'.1 ∧ world'.2 = world.2 := by
  rw [onRunner_eq] at h
  rcases hstep : step world.1 with ⟨found, next⟩ | ⟨cause, next⟩ <;> rw [hstep] at h <;> cases h
  exact ⟨rfl, rfl⟩

/-- Among jobs that are not all in range there is a first that is not. -/
theorem exists_first_of_not_inRange {depth : Nat} (h : ¬ ∀ job ∈ jobs, job.InRange depth) :
    ∃ before bad after, jobs = before ++ bad :: after ∧ (∀ job ∈ before, job.InRange depth) ∧
      ¬ bad.InRange depth := by
  induction jobs with
  | nil => exact absurd (fun _ hjob ↦ absurd hjob List.not_mem_nil) h
  | cons job jobs ih =>
    by_cases hjob : job.InRange depth
    · obtain ⟨before, bad, after, rfl, hbefore, hbad⟩ :=
        ih fun hrest ↦ h (List.forall_mem_cons.mpr ⟨hjob, hrest⟩)
      exact ⟨job :: before, bad, after, rfl, List.forall_mem_cons.mpr ⟨hjob, hbefore⟩, hbad⟩
    · exact ⟨[], job, jobs, rfl, fun _ hnone ↦ absurd hnone List.not_mem_nil, hjob⟩

namespace Serving

theorem inRange_of_runJobs (hready : start.Ready) (h : Serving start log runner)
    (hbound : log.length + jobs.length < 2 ^ 63) {results : List Int} {next : Runner}
    (hrun : runJobs jobs runner = .ok results next) :
    ∀ job ∈ jobs, job.InRange start.element.scratchpad.depth := by
  by_contra hnot
  obtain ⟨before, bad, after, rfl, hbefore, hbad⟩ := exists_first_of_not_inRange hnot
  have hroom : log.length + before.length < 2 ^ 63 := by
    rw [List.length_append] at hbound
    omega
  obtain ⟨_, stopped, -, herror⟩ : ∃ answered stopped,
      runJobs before runner = .ok answered stopped ∧
      runJobs (before ++ bad :: after) runner =
        .error (ProcessingElement.misaddressed start.element.scratchpad.depth bad) stopped :=
    h.runJobs_of_not_inRange hready hbefore hbad hroom
  rw [hrun] at herror
  cases herror

/-! ### Reported runs -/

/-- Where both reports can be opened, neither is broken off and every job is in range, a reported
run succeeds. -/
theorem runAndReport_of_canReport (hready : start.Ready) (h : Serving start log runner)
    (hbound : log.length + runner.jobs.length < 2 ^ 63) (hcan : writer.CanReport files)
    (htakes : writer.TakesReports files runner.design (Outcome.state (run runner)).design)
    (hjobs : ∀ job ∈ runner.jobs, job.InRange start.element.scratchpad.depth) :
    ∃ entries next files', entries.length = runner.jobs.length ∧
      Serving start (log ++ entries) next ∧ Outcome.state (run runner) = next ∧
      writer.Leaves files files' [.actionCounts, .architecture] next.design ∧
      runAndReport writer (runner, files) =
        .ok ⟨writer.shownPath ReportKind.architecture.stem writer.format,
          writer.shownPath ReportKind.actionCounts.stem writer.format,
          runner.jobs.map fun job ↦ Signed.narrow start.element.mac.bitWidth job.offset⟩
          (next, files') := by
  obtain ⟨made, hmade, hopens⟩ := hcan
  obtain ⟨removed, prepared, hprepare, hsame⟩ := Writer.prepare_of_made hmade
  obtain ⟨hlimits, hempty⟩ : prepared.limits = files.limits ∧
      writer.Leaves files prepared [] runner.design := by
    rcases writer.prepare_cases files runner.design with ⟨_, _, herror⟩ | ⟨_, _, hok, hprepared⟩
    · rw [hprepare] at herror
      cases herror
    · rw [hprepare] at hok
      cases hok
      exact hprepared
  obtain ⟨announced, harchitecture, hlimits', hreport, hsame'⟩ :=
    hempty.write_of_opens .architecture List.not_mem_nil
      ((hsame.opens_iff _).mpr (Writer.opens_iff.mp (hopens .architecture)))
      ((Files.limit?_congr hlimits _).trans htakes.1)
  have hannounce : announce writer (runner, files) =
      .ok (writer.shownPath ReportKind.architecture.stem writer.format) (runner, announced) := by
    rw [announce, Run.bind_of_ok (onFiles_of_ok hprepare), report_eq]
    exact onFiles_of_ok harchitecture
  obtain ⟨entries, next, hlength, hserving, hrun⟩ := h.runJobs_of_inRange hready hjobs hbound
  have hrun' : run runner = .ok _ next := hrun
  have hcountsLimit : announced.limit?
      (writer.chunk (Report.ofKind .actionCounts next.design)).toUTF8 = none := by
    rw [hrun'] at htakes
    exact (Files.limit?_congr (hlimits'.trans (hlimits ▸ rfl)) _).trans htakes.2
  obtain ⟨files', hcounts, -, hreports, -⟩ :=
    (leaves_after_jobs h hserving hreport).write_of_opens .actionCounts (by decide)
      (((hsame.trans hsame').opens_iff _).mpr (Writer.opens_iff.mp (hopens .actionCounts)))
      hcountsLimit
  refine ⟨entries, next, files', hlength, hserving, congrArg Outcome.state hrun', hreports, ?_⟩
  rw [runAndReport_eq, Run.bind_of_ok hannounce, Run.bind_of_ok (onRunner_of_ok hrun' announced),
    Run.map_of_ok ((report_eq _ _ _).trans (onFiles_of_ok hcounts))]

/-- A reported run succeeds in no other way. -/
theorem canReport_of_runAndReport (hready : start.Ready) (h : Serving start log runner)
    (hbound : log.length + runner.jobs.length < 2 ^ 63) {report : RunReport} {world : World}
    (hok : runAndReport writer (runner, files) = .ok report world) :
    writer.CanReport files ∧
      writer.TakesReports files runner.design (Outcome.state (run runner)).design ∧
      ∀ job ∈ runner.jobs, job.InRange start.element.scratchpad.depth := by
  rw [runAndReport_eq] at hok
  obtain ⟨path, announced, hannounce, hrest⟩ := Run.bind_eq_ok hok
  obtain ⟨results, counted, hjobs, hlast⟩ := Run.bind_eq_ok hrest
  obtain ⟨removed, prepared, hprepare, harchitecture⟩ := Run.bind_eq_ok hannounce
  rw [map_eq_pure_bind] at hlast
  obtain ⟨path', written, hcounts, -⟩ := Run.bind_eq_ok hlast
  rw [report_eq] at harchitecture hcounts
  obtain ⟨hprepare, hrunner⟩ := onFiles_eq_ok hprepare
  obtain ⟨harchitecture, hrunner'⟩ := onFiles_eq_ok harchitecture
  obtain ⟨hjobs, hfiles⟩ := onRunner_eq_ok hjobs
  obtain ⟨hcounts, -⟩ := onFiles_eq_ok hcounts
  rw [hrunner', hrunner] at hjobs
  rw [hrunner] at harchitecture
  rw [hfiles] at hcounts
  obtain ⟨made, hmade, hsame, hlimits⟩ := Writer.made_of_prepare hprepare
  have hsame' := writer.sameDirectories_write .architecture
    (Report.ofKind .architecture runner.design) prepared.2
  rw [harchitecture, Outcome.state] at hsame'
  obtain ⟨hopens, hlimit, hlimits'⟩ := Writer.opens_of_write harchitecture
  obtain ⟨hopensCounts, hlimitCounts, -⟩ := Writer.opens_of_write hcounts
  refine ⟨⟨made, hmade, fun kind ↦ Writer.opens_iff.mpr ?_⟩,
    ⟨(Files.limit?_congr hlimits _).symm.trans hlimit, ?_⟩,
    h.inRange_of_runJobs hready hbound hjobs⟩
  · cases kind with
    | architecture => exact (hsame.opens_iff _).mp hopens
    | actionCounts => exact ((hsame.trans hsame').opens_iff _).mp hopensCounts
  · rw [hjobs]
    exact (Files.limit?_congr (hlimits'.trans (hlimits ▸ rfl)) _).symm.trans hlimitCounts

end Serving

end Runner

end CountTree
