import CountTree.Proofs.Attempts
import CountTree.Proofs.Preparation
import CountTree.Proofs.ReportPaths

/-!
How a reported run ends. Whatever the calls before it have done, and whatever lies in the directory,
the reports that it leaves and the jobs that it has run agree (`ReportedRun`): without the
architecture no job has run, after a failure there are no counts, and after a success there is one
document in each of two files. Only where the counts are broken off in a file that has been opened,
a beginning of them stays. `runAndReport_consistent` is the main statement, and
`counts_broken_off` is a run that leaves such a beginning.
-/

set_option autoImplicit false
set_option relaxedAutoImplicit false

namespace CountTree

open Component ProcessingElement CompletedJob

namespace Runner

variable {configuration : Configuration} {start runner : Runner} {log : List CompletedJob}

/-- How a reported run ends that starts with this runner and these files, after the jobs of a log
have succeeded. Wherever it has come to its jobs, the counters are those of all jobs that have
succeeded, and the reports are of the design as it is then. -/
inductive ReportedRun (configuration : Configuration) (log : List CompletedJob) (writer : Writer)
    (runner : Runner) (files : Files) : Outcome RunError World RunReport → Prop
  /-- The directory could not be prepared or the architecture not be written. -/
  | unannounced (failure : FileError) (files' : Files)
      (hannounce : announce writer (runner, files) = .error (.file failure) (runner, files')) :
      ReportedRun configuration log writer runner files (.error (.file failure) (runner, files'))
  /-- A job has failed, and is the first to fail. -/
  | interrupted (before after : List Job) (bad : Job) (done : List CompletedJob) (cause : RunError)
      (next : Runner) (files' : Files)
      (hjobs : configuration.jobs = before ++ bad :: after)
      (hdone : done.map CompletedJob.job = before)
      (hbefore : runJobs before runner = .ok (done.map CompletedJob.result) next)
      (hbad : runJob bad next = .error cause next)
      (haccounts : Accounts configuration (log ++ done) next)
      (hreports : writer.Leaves files files' [.architecture] next.design) :
      ReportedRun configuration log writer runner files (.error cause (next, files'))
  /-- All jobs have succeeded, and the file of the counts could not be opened. -/
  | uncounted (done : List CompletedJob) (failure : FileError) (next : Runner) (files' : Files)
      (hdone : done.map CompletedJob.job = configuration.jobs)
      (hrun : run runner = .ok (done.map CompletedJob.result) next)
      (hopen : writer.openReport .actionCounts files' = .error failure files')
      (hwrite : writer.write .actionCounts (Report.actionCounts next.design) files' =
        .error failure files')
      (haccounts : Accounts configuration (log ++ done) next)
      (hreports : writer.Leaves files files' [.architecture] next.design) :
      ReportedRun configuration log writer runner files (.error (.file failure) (next, files'))
  /-- All jobs have succeeded, and the file of the counts has been opened, but takes no more than a
  beginning of them. Nothing removes it again. -/
  | brokenOff (done : List CompletedJob) (failure : FileError) (next : Runner)
      (location : Location) (announced opened files' : Files)
      (hdone : done.map CompletedJob.job = configuration.jobs)
      (hrun : run runner = .ok (done.map CompletedJob.result) next)
      (hannounced : writer.Leaves files announced [.architecture] next.design)
      (hopen : writer.openReport .actionCounts announced = .ok location opened)
      (hwrite : writer.write .actionCounts (Report.actionCounts next.design) announced =
        .error failure files')
      (haccounts : Accounts configuration (log ++ done) next)
      (hreports : writer.LeavesPart files files' [.architecture] .actionCounts next.design) :
      ReportedRun configuration log writer runner files (.error (.file failure) (next, files'))
  | reported (done : List CompletedJob) (next : Runner) (files' : Files)
      (hdone : done.map CompletedJob.job = configuration.jobs)
      (hrun : run runner = .ok (done.map CompletedJob.result) next)
      (haccounts : Accounts configuration (log ++ done) next)
      (hreports : writer.Leaves files files' [.actionCounts, .architecture] next.design) :
      ReportedRun configuration log writer runner files
        (.ok ⟨writer.shownPath ReportKind.architecture.stem writer.format,
          writer.shownPath ReportKind.actionCounts.stem writer.format,
          done.map CompletedJob.result⟩ (next, files'))

/-! ### The design of a runner -/

/-- No job changes the architecture. -/
theorem Serving.architecture_eq (h : Serving start log runner) :
    Report.architecture runner.design = Report.architecture start.design := by
  rw [h.design_eq]
  exact architecture_eq_of_skeleton_eq (skeleton_runAll _ _)

/-- The report of the architecture is that of the runner before its jobs too. -/
theorem leaves_after_jobs {writer : Writer} {before after : Files} {log' : List CompletedJob}
    {next : Runner} (h : Serving start log runner) (hnext : Serving start log' next)
    (hreports : writer.Leaves before after [.architecture] runner.design) :
    writer.Leaves before after [.architecture] next.design := by
  refine hreports.congr fun kind hkind ↦ ?_
  rw [List.mem_singleton.mp hkind]
  exact hnext.architecture_eq.trans h.architecture_eq.symm

/-! ### One run -/

/-- A reported run from a runner that has done the jobs of a log. -/
theorem Serving.reportedRun (hcreate : create configuration = .ok start)
    (h : Serving start log runner) (writer : Writer) (files : Files)
    (hbound : log.length + attempts ((Call.runAndReport writer files).jobs runner) runner <
      2 ^ 63) :
    ReportedRun configuration log writer runner files (runAndReport writer (runner, files)) := by
  have hsizes := Configuration.storable_of_create hcreate
  obtain ⟨buffer, mac, scratchpad, hcreated⟩ := (create_eq_ok_iff hsizes).mp hcreate
  have hjobs : runner.jobs = configuration.jobs := h.jobs_eq.trans hcreated.jobs_eq
  rw [runAndReport_eq]
  rcases announce_cases writer runner files with ⟨failure, made, hannounce⟩ |
    ⟨made, hannounce, -, hreports⟩
  · rw [Run.bind_of_error hannounce]
    exact .unannounced failure made hannounce
  · have hcall : (Call.runAndReport writer files).jobs runner = runner.jobs := by
      rw [Call.jobs, hannounce]
      rfl
    rw [hcall] at hbound
    have hlength : (log ++ completed runner.jobs runner).length < 2 ^ 63 := by
      have hle := length_completed_le_attempts runner.jobs runner
      rw [List.length_append]
      omega
    rw [Run.bind_of_ok hannounce]
    rcases h.runJobs_ends hcreated.ready hbound with ⟨next, hdone, hrun, hnext⟩ |
      ⟨before, after, bad, next, hsplit, hdone, hbefore, hbad, hrun, hnext⟩
    · have haccounts := hnext.accounts hsizes hcreate hlength
      have harchitecture := leaves_after_jobs h hnext hreports
      have hnew : ReportKind.actionCounts ∉ [ReportKind.architecture] := by decide
      have hrun' : run runner = .ok _ next := hrun
      rw [Run.bind_of_ok (onRunner_of_ok hrun' made)]
      rcases harchitecture.write_cases hnew with ⟨failure, hopen, hwrite⟩ |
        ⟨files', -, hwrite, -, hall⟩ | ⟨limit, location, opened, files', -, hopen, hwrite, hpart⟩
      · rw [Run.map_of_error ((report_eq _ _ _).trans (onFiles_of_error hwrite))]
        exact .uncounted _ failure next made (hdone.trans hjobs) hrun hopen hwrite haccounts
          harchitecture
      · rw [Run.map_of_ok ((report_eq _ _ _).trans (onFiles_of_ok hwrite))]
        exact .reported _ next files' (hdone.trans hjobs) hrun haccounts hall
      · rw [Run.map_of_error ((report_eq _ _ _).trans (onFiles_of_error hwrite))]
        exact .brokenOff _ limit.cause next location made opened files' (hdone.trans hjobs) hrun
          harchitecture hopen hwrite haccounts hpart
    · have hrun' : run runner = .error _ next := hrun
      rw [Run.bind_of_error (onRunner_of_error hrun' made)]
      exact .interrupted before after bad _ _ next made (hjobs.symm.trans hsplit) hdone hbefore hbad
        (hnext.accounts hsizes hcreate hlength) (leaves_after_jobs h hnext hreports)

/-! ### After any calls -/

/-- Reports and jobs agree however a reported run ends. It may come after any calls, other reported
runs among them, as long as fewer than `2 ^ 63` jobs are run in total, and it may find anything in
the files: what earlier runs have left, in either format, or directories and devices with the names
of reports. Any write may be broken off. -/
theorem runAndReport_consistent (hcreate : create configuration = .ok start) (calls : List Call)
    (writer : Writer) (files : Files)
    (hbound : jobsRun (calls ++ [.runAndReport writer files]) start < 2 ^ 63) :
    ReportedRun configuration (callAll calls start).1 writer (callAll calls start).2 files
      (runAndReport writer ((callAll calls start).2, files)) := by
  rw [jobsRun_append_singleton] at hbound
  have hsizes := Configuration.storable_of_create hcreate
  obtain ⟨buffer, mac, scratchpad, hcreated⟩ := (create_eq_ok_iff hsizes).mp hcreate
  have hlog := length_callAll_le_jobsRun calls start
  have hcalls : ([] : List CompletedJob).length + jobsRun calls start < 2 ^ 63 := by
    rw [List.length_nil]
    omega
  have hserving : Serving start (callAll calls start).1 (callAll calls start).2 :=
    (Serving.refl start).after_calls hcreated.ready hcalls
  exact hserving.reportedRun hcreate writer files (by omega)

/-- A run whose second job is out of range, after another such run, finds counts in the other
format. They are gone after it, the architecture is there, and the counters are those of the jobs
that have succeeded. -/
theorem runAndReport_consistent_sample :
    let configuration : Configuration := { jobs := [⟨3, 0, 5⟩, ⟨0, 20, 1⟩] }
    let writer : Writer := ⟨"", .yaml, true⟩
    let files := Files.empty.put ["action_counts.json"] (.file "\x7b\x7d\n".toUTF8)
    let calls : List Call := [.runAndReport writer files, .runJob ⟨25, 0, 1⟩]
    files.isFile (writer.path .actionCounts .json) = true ∧
      ∃ start, create configuration = .ok start ∧
        jobsRun (calls ++ [.runAndReport writer files]) start < 2 ^ 63 ∧
        ∃ done cause next files', runAndReport writer ((callAll calls start).2, files) =
            .error cause (next, files') ∧
          Accounts configuration ((callAll calls start).1 ++ done) next ∧
          writer.Holds files files' .architecture (Report.architecture next.design) ∧
          files'.isFile (writer.path .actionCounts .json) = false := by
  intro configuration writer files calls
  obtain ⟨start, hstart, hbound, hannounces, hfails⟩ : ∃ start,
      create configuration = .ok start ∧
      jobsRun (calls ++ [.runAndReport writer files]) start < 2 ^ 63 ∧
      (Outcome.stateIfOk (announce writer ((callAll calls start).2, files))).isOk = true ∧
      (Outcome.stateIfOk (run (callAll calls start).2)).isOk = false :=
    ⟨_, rfl, by decide +kernel, by decide +kernel, by decide +kernel⟩
  have hconsistent := runAndReport_consistent hstart calls writer files hbound
  refine ⟨by decide, start, hstart, hbound, ?_⟩
  generalize runAndReport writer ((callAll calls start).2, files) = outcome at hconsistent
  cases hconsistent with
  | unannounced failure files' hannounce =>
    rw [hannounce] at hannounces
    cases hannounces
  | interrupted before after bad done cause next files' _ _ _ _ haccounts hreports =>
    exact ⟨done, cause, next, files', rfl, haccounts, hreports.holds _ List.mem_cons_self,
      hreports.others _ _ (by decide)⟩
  | uncounted done failure next files' _ hrun =>
    rw [hrun] at hfails
    cases hfails
  | brokenOff done failure next location announced opened files' _ hrun =>
    rw [hrun] at hfails
    cases hfails
  | reported done next files' _ hrun =>
    rw [hrun] at hfails
    cases hfails

/-- A disk without room for the counts. The architecture has been written, all jobs have succeeded
and the run has failed, but the file of the counts has been made, and is still there. -/
theorem counts_broken_off :
    let configuration : Configuration := { jobs := [⟨3, 0, 5⟩] }
    let writer : Writer := ⟨"", .yaml, false⟩
    let files : Files := { Files.empty with limits := [none, some ⟨0, .noSpace⟩] }
    ∃ start shown announced results next files', create configuration = .ok start ∧
      jobsRun [.runAndReport writer files] start < 2 ^ 63 ∧
      announce writer (start, files) = .ok shown (start, announced) ∧
      run start = .ok results next ∧
      runAndReport writer (start, files) = .error (.file .noSpace) (next, files') ∧
      files'.isFile (writer.path .actionCounts .yaml) = true := by
  intro configuration writer files
  obtain ⟨start, hstart, hbound, hruns, hannounces, hopens⟩ : ∃ start,
      create configuration = .ok start ∧ jobsRun [.runAndReport writer files] start < 2 ^ 63 ∧
      (Outcome.stateIfOk (run start)).isOk = true ∧
      (Outcome.stateIfOk (announce writer (start, files))).isOk = true ∧
      (Outcome.stateIfOk (writer.openReport .actionCounts
        (Outcome.state (announce writer (start, files))).2)).isOk = true :=
    ⟨_, rfl, by decide +kernel, by decide +kernel, by decide +kernel, by decide +kernel⟩
  rcases announce_cases writer start files with ⟨failure, made, hannounce⟩ |
    ⟨announced, hannounce, hlimits, hreports⟩ <;> rw [hannounce] at hannounces hopens
  · cases hannounces
  rcases hrun : run start with ⟨results, next⟩ | ⟨cause, next⟩ <;> rw [hrun] at hruns
  swap
  · cases hruns
  have hlimit : announced.limit? (writer.chunk (Report.actionCounts next.design)).toUTF8 =
      some ⟨0, .noSpace⟩ := Files.limit?_of_cons hlimits (writer.size_chunk_pos _)
  have hfresh : announced.isFile (writer.path .actionCounts .yaml) = false :=
    hreports.others _ _ (by decide)
  rcases Writer.write_fresh_cases hreports.devices hfresh (Report.actionCounts next.design) with
    ⟨failure, hopen, -⟩ | ⟨location, opened, files', -, hwrite, -, hholds⟩
  · rw [Outcome.state, hopen] at hopens
    cases hopens
  rw [Files.ending, hlimit] at hwrite
  have hnodevice (location : Location) (held : ByteArray) :
      files.get? location ≠ some (.device held) := by
    intro hdevice
    rw [Files.get?, show files.tree = .empty from rfl, FileTree.get?_empty] at hdevice
    split at hdevice <;> cases hdevice
  refine ⟨start, _, announced, results, next, files', hstart, hbound, hannounce, hrun, ?_,
    hholds.isFile hnodevice⟩
  rw [runAndReport_eq, Run.bind_of_ok hannounce, Run.bind_of_ok (onRunner_of_ok hrun announced),
    Run.map_of_error ((report_eq _ _ _).trans (onFiles_of_error hwrite))]

end Runner

end CountTree
