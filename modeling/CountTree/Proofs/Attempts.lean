import CountTree.Proofs.Calls

/-!
How runs of jobs end as long as fewer than `2 ^ 63` jobs are run at all, those that fail included.
Within that bound no counter is full when a job starts, so that a run either does all of its jobs or
stops at the first with an address out of range, which leaves no trace (`Serving.runJobs_ends`).
-/

set_option autoImplicit false
set_option relaxedAutoImplicit false

namespace CountTree

open Component ProcessingElement CompletedJob

namespace Configuration

variable {configuration : Configuration} {start : Runner}

/-- The table of a memory's reads has a cell for each bank. -/
theorem lt_of_build {memory : Memory} {name : String} {node : Component}
    (h : memory.build name = .ok node) : memory.bankCount < storageLimit := by
  obtain ⟨schema, hschema, hleaf⟩ := Memory.build_eq_ok_iff.mp h
  obtain ⟨reads, writes, ⟨-, hbanks⟩, -, hactions⟩ := Memory.schema_eq_ok_iff.mp hschema
  obtain ⟨counters, hzero, -⟩ := leaf_eq_ok_iff.mp hleaf
  have hsize : reads.tableSize = memory.bankCount := by
    rw [← reads.size_cardinalities, hbanks, Radix.size_eq_prod, List.prod_singleton]
  rw [Counters.zero?] at hzero
  split at hzero
  · rename_i hsizes
    rw [List.all_eq_true] at hsizes
    exact hsize ▸ of_decide_eq_true (hsizes reads (hactions ▸ List.mem_cons_self))
  · cases hzero

/-- Whatever a runner is created from can be stored. -/
theorem storable_of_create (h : Runner.create configuration = .ok start) :
    configuration.Storable := by
  simp only [Runner.create, bind_eq_ok_iff] at h
  obtain ⟨buffer, hbuffer, node, hnode, -, -, element, helement, child, hchild, -⟩ := h
  simp only [ProcessingElement.create, bind_eq_ok_iff] at helement
  obtain ⟨scratchpad, hscratchpad, helement⟩ := helement
  obtain ⟨mac, spad, -, hspad, -⟩ := ProcessingElement.build_eq_ok_iff.mp hchild
  obtain rfl := Except.ok.inj helement
  have hbuffer' := hbuffer
  have hscratchpad' := hscratchpad
  rw [Memory.create, if_pos (Memory.lt_of_create hbuffer)] at hbuffer'
  rw [Memory.create, if_pos (Memory.lt_of_create hscratchpad)] at hscratchpad'
  obtain rfl := Except.ok.inj hbuffer'
  obtain rfl := Except.ok.inj hscratchpad'
  exact ⟨Memory.lt_of_create hbuffer, lt_of_build hnode, Memory.lt_of_create hscratchpad,
    lt_of_build hspad⟩

end Configuration

namespace Runner

variable {start runner : Runner} {log : List CompletedJob} {jobs : List Job}

/-! ### The number of jobs that are run -/

/-- The number of jobs that are run, the first that fails included. -/
def attempts : List Job → Runner → Nat
  | [], _ => 0
  | job :: jobs, runner =>
    match runJob job runner with
    | .ok _ next => attempts jobs next + 1
    | .error _ _ => 1

/-- The number of jobs that are run in some calls. -/
def jobsRun : List Call → Runner → Nat
  | [], _ => 0
  | call :: calls, runner =>
    attempts (call.jobs runner) runner + jobsRun calls (call.effect runner)

theorem attempts_cons_pos (job : Job) (jobs : List Job) (runner : Runner) :
    0 < attempts (job :: jobs) runner := by
  rw [attempts]
  split <;> omega

theorem length_completed_le_attempts (jobs : List Job) (runner : Runner) :
    (completed jobs runner).length ≤ attempts jobs runner := by
  induction jobs generalizing runner with
  | nil => exact Nat.le_refl 0
  | cons job jobs ih =>
    rw [completed, attempts]
    rcases runJob job runner with ⟨result, next⟩ | ⟨cause, next⟩
    · exact Nat.succ_le_succ (ih next)
    · exact Nat.zero_le 1

theorem length_callAll_le_jobsRun (calls : List Call) (runner : Runner) :
    (callAll calls runner).1.length ≤ jobsRun calls runner := by
  induction calls generalizing runner with
  | nil => exact Nat.le_refl 0
  | cons call calls ih =>
    rw [callAll, jobsRun, List.length_append]
    exact Nat.add_le_add (length_completed_le_attempts _ _) (ih _)

theorem jobsRun_append_singleton (calls : List Call) (call : Call) (runner : Runner) :
    jobsRun (calls ++ [call]) runner = jobsRun calls runner +
      attempts (call.jobs (callAll calls runner).2) (callAll calls runner).2 := by
  induction calls generalizing runner with
  | nil => rw [List.nil_append, jobsRun, jobsRun, jobsRun, callAll, Nat.add_comm]
  | cons first calls ih => rw [List.cons_append, jobsRun, ih, jobsRun, callAll, Nat.add_assoc]

/-! ### How runs of jobs end -/

/-- How jobs end that are run one after the other, and what the log says of it: all of them have
succeeded, or the first with an address out of range has failed and left no trace. -/
inductive Ends (start : Runner) (log : List CompletedJob) (jobs : List Job) (runner : Runner) : Prop
  | all (next : Runner) (hjobs : (completed jobs runner).map CompletedJob.job = jobs)
      (hrun : runJobs jobs runner = .ok ((completed jobs runner).map CompletedJob.result) next)
      (hserving : Serving start (log ++ completed jobs runner) next) : Ends start log jobs runner
  | first (before after : List Job) (bad : Job) (next : Runner)
      (hsplit : jobs = before ++ bad :: after)
      (hjobs : (completed jobs runner).map CompletedJob.job = before)
      (hbefore : runJobs before runner =
        .ok ((completed jobs runner).map CompletedJob.result) next)
      (hbad : runJob bad next =
        .error (misaddressed start.element.scratchpad.depth bad) next)
      (hrun : runJobs jobs runner =
        .error (misaddressed start.element.scratchpad.depth bad) next)
      (hserving : Serving start (log ++ completed jobs runner) next) : Ends start log jobs runner

/-- A job that succeeds before others does not change how they end. -/
theorem Ends.cons {job : Job} {next : Runner}
    (hrun : runJob job runner = .ok (entry runner job).result next)
    (hrest : Ends start (log ++ [entry runner job]) jobs next) :
    Ends start log (job :: jobs) runner := by
  have hcompleted : completed (job :: jobs) runner = entry runner job :: completed jobs next := by
    rw [completed, hrun]
    rfl
  rcases hrest with ⟨last, hjobs, hrest, hserving⟩ |
    ⟨before, after, bad, last, hsplit, hjobs, hbefore, hbad, hrest, hserving⟩
  · refine .all last ?_ ?_ ?_
    · rw [hcompleted, List.map_cons, hjobs, entry_job]
    · rw [hcompleted, runJobs_cons, Run.bind_of_ok hrun, Run.map_of_ok hrest, List.map_cons]
    · rw [hcompleted, List.append_cons]
      exact hserving
  · refine .first (job :: before) after bad last ?_ ?_ ?_ hbad ?_ ?_
    · rw [List.cons_append, ← hsplit]
    · rw [hcompleted, List.map_cons, hjobs, entry_job]
    · rw [hcompleted, runJobs_cons, Run.bind_of_ok hrun, Run.map_of_ok hbefore, List.map_cons]
    · rw [runJobs_cons, Run.bind_of_ok hrun, Run.map_of_error hrest]
    · rw [hcompleted, List.append_cons]
      exact hserving

namespace Serving

theorem runJobs_ends (hready : start.Ready) (h : Serving start log runner)
    (hbound : log.length + attempts jobs runner < 2 ^ 63) : Ends start log jobs runner := by
  induction jobs generalizing log runner with
  | nil => exact .all runner rfl rfl (by simpa [completed] using h)
  | cons job jobs ih =>
    have hpos := attempts_cons_pos job jobs runner
    by_cases hjob : job.InRange start.element.scratchpad.depth
    · obtain ⟨next, hrun, hnext⟩ := h.runJob_of_inRange hready hjob (by omega)
      have hattempts : attempts (job :: jobs) runner = attempts jobs next + 1 := by
        rw [attempts, hrun]
      have hroom : (log ++ [entry runner job]).length + attempts jobs next < 2 ^ 63 := by
        rw [List.length_append, List.length_singleton]
        omega
      exact .cons hrun (ih hnext hroom)
    · have hrun := h.runJob_of_not_inRange hready (by omega) hjob
      have hcompleted : completed (job :: jobs) runner = [] := by rw [completed, hrun]
      refine .first [] jobs job runner rfl ?_ ?_ hrun ?_ ?_
      · rw [hcompleted]
        rfl
      · rw [hcompleted]
        rfl
      · rw [runJobs_cons, Run.bind_of_error hrun]
      · rw [hcompleted, List.append_nil]
        exact h

/-- The log of all calls is what they have done. -/
theorem after_calls (hready : start.Ready) (h : Serving start log runner) {calls : List Call}
    (hbound : log.length + jobsRun calls runner < 2 ^ 63) :
    Serving start (log ++ (callAll calls runner).1) (callAll calls runner).2 := by
  induction calls generalizing log runner with
  | nil => simpa [callAll] using h
  | cons call calls ih =>
    rw [jobsRun] at hbound
    have hlength := length_completed_le_attempts (call.jobs runner) runner
    have hcall : Serving start (log ++ completed (call.jobs runner) runner)
        (call.effect runner) := by
      have hends : Ends start log (call.jobs runner) runner := h.runJobs_ends hready (by omega)
      rw [call.effect_eq]
      rcases hends with ⟨next, -, hrun, hserving⟩ |
        ⟨before, after, bad, next, -, -, -, -, hrun, hserving⟩
      · rw [hrun]
        exact hserving
      · rw [hrun]
        exact hserving
    rw [callAll, ← List.append_assoc]
    refine ih hcall ?_
    rw [List.length_append]
    omega

end Serving

end Runner

end CountTree
