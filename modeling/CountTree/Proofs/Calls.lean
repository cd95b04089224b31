import CountTree.Proofs.JobCounts
import Mathlib.Data.List.TakeWhile

/-!
Which errors a runner can produce. Its calls are to run one job, to run all, and to run all between
two reports, in any order and on files that may have changed in the meantime.
`Serving.after_callAll` is what any calls come to for the runner: a log of the jobs that have
succeeded, and no trace of those that have not. The main statement is `call_errors`. A job fails
exactly for an address out of range, and then nothing has changed. `overflow_in_run` is the limit of
it.
-/

set_option autoImplicit false
set_option relaxedAutoImplicit false

namespace CountTree

open Component ProcessingElement CompletedJob

namespace Runner

/-! ### Steps on files -/

variable {α : Type} {world world' : World}

theorem runner_after_onFiles (step : Run FileError Files α) (world : World) :
    (Outcome.state (onFiles step world)).1 = world.1 := by
  rw [onFiles, Run.onSnd, Run.onPart, Run.mapError]
  rcases step world.2 with _ | _ <;> rfl

theorem onFiles_eq_error {step : Run FileError Files α} {cause : RunError}
    (h : onFiles step world = .error cause world') : ∃ failure, cause = .file failure := by
  rw [onFiles, Run.onSnd, Run.onPart, Run.mapError] at h
  rcases hstep : step world.2 with _ | ⟨failure, files⟩ <;> rw [hstep] at h <;> cases h
  exact ⟨failure, rfl⟩

theorem report_eq (writer : Writer) (kind : ReportKind) (world : World) :
    report writer kind world =
      onFiles (writer.write kind (Report.ofKind kind world.1.design)) world := by
  rw [report]
  exact Run.get_bind _ world

/-- What happens before the jobs of a reported run. -/
def announce (writer : Writer) : Run RunError World String := do
  let _ ← onFiles writer.prepare
  report writer .architecture

theorem runner_after_announce (writer : Writer) (world : World) :
    (Outcome.state (announce writer world)).1 = world.1 := by
  have hprepare := runner_after_onFiles writer.prepare world
  rw [announce]
  rcases hstep : onFiles writer.prepare world with ⟨value, next⟩ | ⟨cause, next⟩ <;>
    rw [hstep] at hprepare
  · rw [Run.bind_of_ok hstep, report_eq, runner_after_onFiles]
    exact hprepare
  · rw [Run.bind_of_error hstep]
    exact hprepare

theorem announce_eq_error {writer : Writer} {cause : RunError}
    (h : announce writer world = .error cause world') : ∃ failure, cause = .file failure := by
  rcases Run.bind_eq_error h with hprepare | ⟨_, middle, -, hreport⟩
  · exact onFiles_eq_error hprepare
  · exact onFiles_eq_error hreport

theorem runAndReport_eq (writer : Writer) : runAndReport writer = (do
    let architecturePath ← announce writer
    let results ← onRunner run
    (⟨architecturePath, ·, results⟩) <$> report writer .actionCounts) := by
  simp only [runAndReport, announce, bind_assoc, map_eq_pure_bind]

theorem onRunner_eq (step : Run RunError Runner α) (world : World) :
    onRunner step world = Outcome.mapState (·, world.2) (step world.1) := rfl

/-! ### Runs -/

/-- The jobs that succeed before the first that fails. -/
def completed : List Job → Runner → List CompletedJob
  | [], _ => []
  | job :: jobs, runner =>
    match runJob job runner with
    | .ok result next => ⟨job, runner.element.scratchpad, result⟩ :: completed jobs next
    | .error _ _ => []

theorem length_completed_le (jobs : List Job) (runner : Runner) :
    (completed jobs runner).length ≤ jobs.length := by
  induction jobs generalizing runner with
  | nil => exact Nat.le_refl 0
  | cons job jobs ih =>
    rw [completed]
    rcases runJob job runner with ⟨result, next⟩ | ⟨cause, next⟩
    · exact Nat.succ_le_succ (ih next)
    · exact Nat.zero_le _

theorem runJobs_cons (job : Job) (jobs : List Job) :
    runJobs (job :: jobs) = runJob job >>= fun result ↦ (result :: ·) <$> runJobs jobs := by
  simp only [runJobs, map_eq_pure_bind]

theorem runJobs_append (before rest : List Job) : runJobs (before ++ rest) =
    runJobs before >>= fun results ↦ (results ++ ·) <$> runJobs rest := by
  induction before with
  | nil => simp only [List.nil_append, runJobs, pure_bind, id_map']
  | cons job before ih =>
    rw [List.cons_append, runJobs_cons, ih, runJobs_cons]
    simp only [map_eq_pure_bind, bind_assoc, pure_bind, List.cons_append]

theorem state_runJobs_singleton (job : Job) (runner : Runner) :
    Outcome.state (runJobs [job] runner) = Outcome.state (runJob job runner) := by
  rw [runJobs_cons]
  exact Run.state_map _ _ _

end Runner

/-- A call of a runner. One that reports is given the files as it finds them. -/
inductive Call where
  | runJob (job : Job)
  | run
  | runAndReport (writer : Writer) (files : Files)

namespace Call

/-- The runner after a call, whether or not it fails. -/
def effect : Call → Runner → Runner
  | runJob job, runner => Outcome.state (Runner.runJob job runner)
  | run, runner => Outcome.state (Runner.run runner)
  | runAndReport writer files, runner =>
    (Outcome.state (Runner.runAndReport writer (runner, files))).1

/-- The jobs that a call runs up to the first that fails. There are none if the architecture cannot
be reported. -/
def jobs : Call → Runner → List Job
  | runJob job, _ => [job]
  | run, runner => runner.jobs
  | runAndReport writer files, runner =>
    if (Outcome.stateIfOk (Runner.announce writer (runner, files))).isOk then runner.jobs else []

/-- All that a call does to the runner is to run its jobs. -/
theorem effect_eq (call : Call) (runner : Runner) :
    call.effect runner = Outcome.state (Runner.runJobs (call.jobs runner) runner) := by
  cases call with
  | runJob job => exact (Runner.state_runJobs_singleton job runner).symm
  | run => rfl
  | runAndReport writer files =>
    have hbefore := Runner.runner_after_announce writer (runner, files)
    rw [effect, jobs, Runner.runAndReport_eq]
    rcases hannounce : Runner.announce writer (runner, files) with
      ⟨path, middle, files'⟩ | ⟨cause, middle, files'⟩ <;> rw [hannounce] at hbefore
    · obtain rfl : middle = runner := hbefore
      have hrun := Runner.onRunner_eq Runner.run (middle, files')
      rw [Run.bind_of_ok hannounce]
      change _ = Outcome.state (Runner.run middle)
      rcases hresults : Runner.run middle with ⟨results, next⟩ | ⟨cause, next⟩ <;>
        rw [hresults] at hrun
      · rw [Run.bind_of_ok hrun, Run.state_map, Runner.report_eq, Runner.runner_after_onFiles]
        rfl
      · rw [Run.bind_of_error hrun]
        rfl
    · rw [Run.bind_of_error hannounce]
      exact hbefore

end Call

namespace Runner

variable {configuration : Configuration} {start runner : Runner} {log : List CompletedJob}
  {jobs : List Job}

/-- Makes calls in order: the jobs that have succeeded, and the runner after all calls. -/
def callAll : List Call → Runner → List CompletedJob × Runner
  | [], runner => ([], runner)
  | call :: calls, runner =>
    let rest := callAll calls (call.effect runner)
    (completed (call.jobs runner) runner ++ rest.1, rest.2)

/-- Calls for one job each are attempts at their jobs. -/
theorem callAll_map_runJob (jobs : List Job) (runner : Runner) :
    callAll (jobs.map .runJob) runner = attemptAll jobs runner := by
  induction jobs generalizing runner with
  | nil => rfl
  | cons job jobs ih =>
    rw [List.map_cons, callAll, ih, Call.jobs, Call.effect, completed, attemptAll]
    rcases runJob job runner with ⟨result, next⟩ | ⟨cause, next⟩ <;> rfl

/-- How a runner answers its calls when some number of jobs has succeeded. The jobs of a run count
towards the bound as they succeed. -/
structure Answers (configuration : Configuration) (succeeded : Nat) (runner : Runner) : Prop where
  job_of_inRange : ∀ job : Job, job.InRange configuration.element.depth →
    ∃ next, runJob job runner =
      .ok (Signed.narrow configuration.element.bitWidth job.offset) next
  job_of_not_inRange : ∀ job : Job, ¬ job.InRange configuration.element.depth →
    runJob job runner = .error (misaddressed configuration.element.depth job) runner
  run_of_inRange : (∀ job ∈ configuration.jobs, job.InRange configuration.element.depth) →
    succeeded + configuration.jobs.length < 2 ^ 63 →
      ∃ next, run runner = .ok (configuration.jobs.map fun job ↦
        Signed.narrow configuration.element.bitWidth job.offset) next
  run_of_not_inRange : ∀ before bad after, configuration.jobs = before ++ bad :: after →
    (∀ job ∈ before, job.InRange configuration.element.depth) →
      ¬ bad.InRange configuration.element.depth → succeeded + before.length < 2 ^ 63 →
        ∃ results next, runJobs before runner = .ok results next ∧
          run runner = .error (misaddressed configuration.element.depth bad) next
  report_error : ∀ writer files cause world,
    succeeded + (configuration.jobs.takeWhile (·.InRange configuration.element.depth)).length <
        2 ^ 63 →
      runAndReport writer (runner, files) = .error cause world →
        (∃ failure, cause = .file failure) ∨
          ∃ before bad after, configuration.jobs = before ++ bad :: after ∧
            (∀ job ∈ before, job.InRange configuration.element.depth) ∧
              ¬ bad.InRange configuration.element.depth ∧
                cause = misaddressed configuration.element.depth bad

namespace Serving

/-- A run extends the log by the jobs before the first that fails. -/
theorem after_runJobs (hready : start.Ready) (h : Serving start log runner)
    (hbound : log.length + (completed jobs runner).length < 2 ^ 63 - 1) :
    Serving start (log ++ completed jobs runner) (Outcome.state (runJobs jobs runner)) := by
  induction jobs generalizing log runner with
  | nil =>
    rw [completed, List.append_nil]
    exact h
  | cons job jobs ih =>
    by_cases hjob : job.InRange start.element.scratchpad.depth
    · obtain ⟨next, hrun, hnext⟩ := h.runJob_of_inRange hready hjob (by omega)
      have hcompleted : completed (job :: jobs) runner =
          entry runner job :: completed jobs next := by
        rw [completed, hrun]
        rfl
      have hroom : (log ++ [entry runner job]).length + (completed jobs next).length <
          2 ^ 63 - 1 := by
        rw [hcompleted, List.length_cons] at hbound
        rw [List.length_append, List.length_singleton]
        omega
      rw [hcompleted, runJobs_cons, Run.bind_of_ok hrun, Run.state_map, List.append_cons]
      exact ih hnext hroom
    · have hrun := h.runJob_of_not_inRange hready (by omega) hjob
      rw [completed, hrun, runJobs_cons, Run.bind_of_error hrun, List.append_nil]
      exact h

theorem after_callAll (hready : start.Ready) (h : Serving start log runner) {calls : List Call}
    (hbound : log.length + (callAll calls runner).1.length < 2 ^ 63 - 1) :
    Serving start (log ++ (callAll calls runner).1) (callAll calls runner).2 := by
  induction calls generalizing log runner with
  | nil => simpa [callAll] using h
  | cons call calls ih =>
    rw [callAll] at hbound ⊢
    rw [List.length_append] at hbound
    have hcall : Serving start (log ++ completed (call.jobs runner) runner)
        (call.effect runner) := by
      rw [call.effect_eq]
      exact h.after_runJobs hready (by omega)
    rw [← List.append_assoc]
    refine ih hcall ?_
    rw [List.length_append]
    omega

/-- Jobs in range succeed as long as there is room for them. -/
theorem runJobs_of_inRange (hready : start.Ready) (h : Serving start log runner)
    (hjobs : ∀ job ∈ jobs, job.InRange start.element.scratchpad.depth)
    (hbound : log.length + jobs.length < 2 ^ 63) :
    ∃ entries next, entries.length = jobs.length ∧ Serving start (log ++ entries) next ∧
      runJobs jobs runner =
        .ok (jobs.map fun job ↦ Signed.narrow start.element.mac.bitWidth job.offset) next := by
  induction jobs generalizing log runner with
  | nil => exact ⟨[], runner, rfl, by simpa using h, rfl⟩
  | cons job jobs ih =>
    rw [List.length_cons] at hbound
    obtain ⟨next, hrun, hnext⟩ :=
      h.runJob_of_inRange hready (hjobs job List.mem_cons_self) (by omega)
    have hroom : (log ++ [entry runner job]).length + jobs.length < 2 ^ 63 := by
      rw [List.length_append, List.length_singleton]
      omega
    obtain ⟨entries, last, hlength, hlast, hrest⟩ :=
      ih hnext (fun other hother ↦ hjobs other (List.mem_cons_of_mem _ hother)) hroom
    refine ⟨entry runner job :: entries, last, ?_, by simpa using hlast, ?_⟩
    · rw [List.length_cons, hlength, List.length_cons]
    · rw [runJobs_cons, Run.bind_of_ok hrun, Run.map_of_ok hrest, h.entry_result]
      rfl

/-- A run ends at the first job out of range, with what the jobs before it have done. -/
theorem runJobs_of_not_inRange (hready : start.Ready) (h : Serving start log runner)
    {before after : List Job} {bad : Job}
    (hbefore : ∀ job ∈ before, job.InRange start.element.scratchpad.depth)
    (hbad : ¬ bad.InRange start.element.scratchpad.depth)
    (hbound : log.length + before.length < 2 ^ 63) :
    ∃ results next, runJobs before runner = .ok results next ∧
      runJobs (before ++ bad :: after) runner =
        .error (misaddressed start.element.scratchpad.depth bad) next := by
  obtain ⟨entries, next, hlength, hnext, hrun⟩ := h.runJobs_of_inRange hready hbefore hbound
  have hroom : (log ++ entries).length < 2 ^ 63 := by
    rw [List.length_append]
    omega
  refine ⟨_, next, hrun, ?_⟩
  have hlast : runJobs (bad :: after) next =
      .error (misaddressed start.element.scratchpad.depth bad) next := by
    rw [runJobs_cons]
    exact Run.bind_of_error (hnext.runJob_of_not_inRange hready hroom hbad)
  rw [runJobs_append, Run.bind_of_ok hrun, Run.map_of_error hlast]

/-- Nothing makes a run fail but the first job out of range. -/
theorem runJobs_eq_error (hready : start.Ready) (h : Serving start log runner)
    (hbound : log.length +
      (jobs.takeWhile (·.InRange start.element.scratchpad.depth)).length < 2 ^ 63)
    {cause : RunError} {next : Runner} (hrun : runJobs jobs runner = .error cause next) :
    ∃ before bad after, jobs = before ++ bad :: after ∧
      (∀ job ∈ before, job.InRange start.element.scratchpad.depth) ∧
        ¬ bad.InRange start.element.scratchpad.depth ∧
          cause = misaddressed start.element.scratchpad.depth bad := by
  let inRange (job : Job) : Bool := job.InRange start.element.scratchpad.depth
  have hsplit : jobs.takeWhile inRange ++ jobs.dropWhile inRange = jobs :=
    List.takeWhile_append_dropWhile
  have hbefore : ∀ job ∈ jobs.takeWhile inRange,
      job.InRange start.element.scratchpad.depth := fun job hjob ↦ by
    have hjob : inRange job = true := List.mem_takeWhile_imp hjob
    exact of_decide_eq_true hjob
  rcases hrest : jobs.dropWhile inRange with _ | ⟨bad, after⟩
  · rw [hrest, List.append_nil] at hsplit
    obtain ⟨entries, last, -, -, hok⟩ := h.runJobs_of_inRange hready hbefore hbound
    rw [hsplit, hrun] at hok
    cases hok
  · have hhead := List.head?_dropWhile_not inRange jobs
    rw [hrest] at hhead hsplit
    have hbad : ¬ bad.InRange start.element.scratchpad.depth := of_decide_eq_false hhead
    obtain ⟨results, last, -, herror⟩ : ∃ results last, runJobs (jobs.takeWhile inRange) runner =
        .ok results last ∧ runJobs (jobs.takeWhile inRange ++ bad :: after) runner =
          .error (misaddressed start.element.scratchpad.depth bad) last :=
      h.runJobs_of_not_inRange hready hbefore hbad hbound
    rw [hsplit, hrun] at herror
    cases herror
    exact ⟨_, bad, after, hsplit.symm, hbefore, hbad, rfl⟩

theorem runAndReport_eq_error (hready : start.Ready) (h : Serving start log runner)
    (hbound : log.length +
      (runner.jobs.takeWhile (·.InRange start.element.scratchpad.depth)).length < 2 ^ 63)
    {writer : Writer} {files : Files} {cause : RunError} {world : World}
    (hrun : runAndReport writer (runner, files) = .error cause world) :
    (∃ failure, cause = .file failure) ∨ ∃ before bad after, runner.jobs = before ++ bad :: after ∧
      (∀ job ∈ before, job.InRange start.element.scratchpad.depth) ∧
        ¬ bad.InRange start.element.scratchpad.depth ∧
          cause = misaddressed start.element.scratchpad.depth bad := by
  rw [runAndReport_eq] at hrun
  rcases Run.bind_eq_error hrun with hannounce | ⟨path, ⟨middle, files'⟩, hannounce, hrest⟩
  · exact .inl (announce_eq_error hannounce)
  have hkept := runner_after_announce writer (runner, files)
  rw [hannounce] at hkept
  obtain rfl : middle = runner := hkept
  rcases Run.bind_eq_error hrest with hjobs | ⟨results, last, -, hreport⟩
  · right
    rw [onRunner_eq] at hjobs
    rcases hresults : run middle with ⟨results, next⟩ | ⟨other, next⟩ <;> rw [hresults] at hjobs <;>
      cases hjobs
    exact h.runJobs_eq_error hready hbound hresults
  · left
    rw [map_eq_pure_bind] at hreport
    rcases Run.bind_eq_error hreport with hwrite | ⟨_, _, -, hpure⟩
    · exact onFiles_eq_error hwrite
    · cases hpure

/-- After fewer than `2 ^ 63 - 1` jobs, all answers are known. -/
theorem answers (hsizes : configuration.Storable) (hcreate : create configuration = .ok start)
    (h : Serving start log runner) (hlength : log.length < 2 ^ 63 - 1) :
    Answers configuration log.length runner := by
  obtain ⟨buffer, mac, scratchpad, hcreated⟩ := (create_eq_ok_iff hsizes).mp hcreate
  have hready := hcreated.ready
  have hdepth := hcreated.depth_eq.symm
  have hwidth : configuration.element.bitWidth = start.element.mac.bitWidth := by
    rw [hcreated.element_eq]
    rfl
  have hjobs : configuration.jobs = runner.jobs := by rw [h.jobs_eq, hcreated.jobs_eq]
  constructor
  · intro job hjob
    rw [hdepth] at hjob
    obtain ⟨next, hrun, -⟩ := h.runJob_of_inRange hready hjob (by omega)
    exact ⟨next, by rw [hrun, h.entry_result, hwidth]⟩
  · intro job hjob
    rw [hdepth] at hjob ⊢
    exact h.runJob_of_not_inRange hready (by omega) hjob
  · intro hall hroom
    rw [hdepth] at hall
    obtain ⟨entries, next, -, -, hrun⟩ := h.runJobs_of_inRange hready hall hroom
    exact ⟨next, by rw [run, ← hjobs, hrun, hwidth]⟩
  · intro before bad after hsplit hbefore hbad hroom
    rw [hdepth] at hbefore hbad ⊢
    rw [run, ← hjobs, hsplit]
    exact h.runJobs_of_not_inRange hready hbefore hbad hroom
  · intro writer files cause world hroom hrun
    rw [hdepth, hjobs] at hroom ⊢
    exact h.runAndReport_eq_error hready hroom hrun

end Serving

/-- Which errors a runner can produce. It can be created when both memories have banks and the names
of buffer and element differ. From then on, after any calls with fewer than `2 ^ 63 - 1` jobs that
have succeeded, a job fails exactly when it has an address out of range, the error names the first
such address, and the runner is as before. A run fails at the first such job, with the runner that
the jobs before it have left, and returns all results if there is none. Reports add nothing but the
failures of files. -/
theorem call_errors (hsizes : configuration.Storable) :
    ((∃ start, create configuration = .ok start) ↔ 0 < configuration.buffer.bankCount ∧
      0 < configuration.element.bankCount ∧
        configuration.buffer.name ≠ configuration.element.name) ∧
    ∀ start calls, create configuration = .ok start →
      (callAll calls start).1.length < 2 ^ 63 - 1 →
        Answers configuration (callAll calls start).1.length (callAll calls start).2 := by
  refine ⟨exists_create_iff hsizes, fun start calls hcreate hbound ↦ ?_⟩
  obtain ⟨buffer, mac, scratchpad, hcreated⟩ := (create_eq_ok_iff hsizes).mp hcreate
  exact Serving.answers hsizes hcreate
    ((Serving.refl start).after_callAll hcreated.ready (by simpa using hbound)) hbound

/-- Runs that are cut short by a job out of range, with jobs between them that succeed and fail. -/
theorem call_errors_sample :
    let configuration : Configuration := { jobs := [⟨3, 0, 5⟩, ⟨0, 20, 1⟩, ⟨1, 1, 1⟩] }
    let calls : List Call := [.run, .runJob ⟨25, 0, 1⟩, .runJob ⟨4, 4, 9⟩]
    configuration.Storable ∧ ∃ start, create configuration = .ok start ∧
      (callAll calls start).1.length < 2 ^ 63 - 1 ∧
      Answers configuration (callAll calls start).1.length (callAll calls start).2 ∧
      runJob ⟨25, 0, 1⟩ (callAll calls start).2 =
        .error (.addressOutOfRange "PE_spad" 25 20) (callAll calls start).2 := by
  intro configuration calls
  have hsizes : configuration.Storable := ⟨by decide, by decide, by decide, by decide⟩
  obtain ⟨start, hstart⟩ :=
    (call_errors hsizes).1.mpr ⟨by decide, by decide, by decide⟩
  have hrun : (completed start.jobs start).length ≤ 3 := by
    obtain ⟨buffer, mac, scratchpad, hcreated⟩ := (create_eq_ok_iff hsizes).mp hstart
    rw [hcreated.jobs_eq]
    exact length_completed_le configuration.jobs start
  have hone (job : Job) (runner : Runner) : (completed [job] runner).length ≤ 1 :=
    length_completed_le [job] runner
  have hbound : (callAll calls start).1.length < 2 ^ 63 - 1 := by
    simp only [calls, callAll, Call.jobs, List.append_nil, List.length_append]
    have hsecond := hone ⟨25, 0, 1⟩ (Call.run.effect start)
    have hthird := hone ⟨4, 4, 9⟩ ((Call.runJob ⟨25, 0, 1⟩).effect (Call.run.effect start))
    omega
  have hanswers := (call_errors hsizes).2 start calls hstart hbound
  exact ⟨hsizes, start, hstart, hbound, hanswers,
    hanswers.job_of_not_inRange ⟨25, 0, 1⟩ (by decide)⟩

/-- After `2 ^ 63 - 2` jobs there is room for one more job. A run of two, both in range, fails in
the second. -/
theorem overflow_in_run :
    let configuration : Configuration := { jobs := [⟨0, 0, 0⟩, ⟨0, 0, 0⟩] }
    ∃ start log runner, configuration.Storable ∧ create configuration = .ok start ∧
      callAll (List.replicate (2 ^ 63 - 2) (.runJob ⟨0, 0, 0⟩)) start = (log, runner) ∧
      log.length < 2 ^ 63 - 1 ∧
      (∀ job ∈ configuration.jobs, job.InRange configuration.element.depth) ∧
      ∃ index next, run runner =
        .error (.model (.counterOverflow Memory.readAction index 1)) next := by
  intro configuration
  have hsizes : configuration.Storable := ⟨by decide, by decide, by decide, by decide⟩
  have hjob : (⟨0, 0, 0⟩ : Job).InRange configuration.element.depth := by decide
  obtain ⟨start, hstart⟩ := (exists_create_iff hsizes).mpr ⟨by decide, by decide, by decide⟩
  obtain ⟨buffer, mac, scratchpad, hcreated⟩ := (create_eq_ok_iff hsizes).mp hstart
  obtain ⟨count, hcount⟩ : ∃ count, 2 ^ 63 - 2 = count := ⟨_, rfl⟩
  obtain ⟨log, runner, hcalls, hserving, hlength⟩ :=
    exists_attempts_replicate hsizes hstart hjob (by omega : count < 2 ^ 63)
  have hdepth := hcreated.depth_eq.symm
  obtain ⟨next, hfirst, hnext⟩ :=
    hserving.runJob_of_inRange hcreated.ready (hdepth ▸ hjob) (by omega)
  obtain ⟨index, last, hsecond, -⟩ := hnext.runJob_of_last hsizes hstart rfl
    (by rw [List.length_append, List.length_singleton]; omega) hjob
  have hrun : runJobs configuration.jobs runner =
      .error (.model (.counterOverflow Memory.readAction index 1)) last := by
    rw [runJobs_cons, Run.bind_of_ok hfirst, runJobs_cons]
    exact Run.map_of_error (Run.bind_of_error hsecond)
  refine ⟨start, log, runner, hsizes, hstart, ?_, by omega, ?_, index, last, ?_⟩
  · rw [hcount, ← hcalls, ← callAll_map_runJob, List.map_replicate]
  · simpa [configuration] using hjob
  · rw [run, hserving.jobs_eq, hcreated.jobs_eq]
    exact hrun

end Runner

end CountTree
