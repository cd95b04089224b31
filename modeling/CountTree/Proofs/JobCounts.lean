import CountTree.Proofs.JobRun

/-!
What the counters say after any jobs. `attemptAll` runs jobs one after the other, whether they
succeed or not, and logs those that do. The main statement is `counts_of_jobs`: up to the number of
jobs that the counters have room for, the jobs that succeed are the jobs in range, and results,
words and counters are those of the log alone. `half_recorded_job` is the limit of it. A job that
meets a full counter fails after its first reads have been counted.
-/

set_option autoImplicit false
set_option relaxedAutoImplicit false

namespace CountTree.Runner

open Component ProcessingElement CompletedJob

variable {configuration : Configuration} {start runner : Runner} {log : List CompletedJob}

/-- Runs jobs in order and goes on after failures: the jobs that have succeeded, each with the
scratchpad that it found, and the runner after all of them. -/
def attemptAll : List Job → Runner → List CompletedJob × Runner
  | [], runner => ([], runner)
  | job :: jobs, runner =>
    match runJob job runner with
    | .ok result next =>
      let rest := attemptAll jobs next
      (⟨job, runner.element.scratchpad, result⟩ :: rest.1, rest.2)
    | .error _ next => attemptAll jobs next

/-- The log tells all that the runner has returned, stored and counted. -/
structure Accounts (configuration : Configuration) (log : List CompletedJob) (runner : Runner) :
    Prop where
  results : ∀ done ∈ log,
    done.result = Signed.narrow configuration.element.bitWidth done.job.offset
  words : ∀ address < configuration.element.depth, runner.element.scratchpad.peek address =
    some ((lastWritten address log).getD ((address % 10 : Nat) : Int))
  reads : ∀ bank < configuration.element.bankCount,
    runner.design.tally
        ⟨[configuration.element.name, scratchpadName], Memory.readAction, [bank]⟩ =
      some (log.countP (fun done ↦ done.job.first % configuration.element.bankCount = bank) +
        log.countP fun done ↦ done.job.second % configuration.element.bankCount = bank)
  writes : ∀ bank < configuration.element.bankCount,
    runner.design.tally
        ⟨[configuration.element.name, scratchpadName], Memory.writeAction, [bank]⟩ =
      some (log.countP fun done ↦ done.job.second % configuration.element.bankCount = bank)
  operations : ∃ gated,
    runner.design.tally ⟨[configuration.element.name, macName], Mac.randomAction, []⟩ =
        some (log.countP fun done ↦ done.Multiplies) ∧
      runner.design.tally ⟨[configuration.element.name, macName], Mac.gatedAction, []⟩ =
        some gated ∧
      log.countP (fun done ↦ done.Multiplies) + gated = 2 * log.length
  buffer : ∀ action, action = Memory.readAction ∨ action = Memory.writeAction →
    ∀ bank < configuration.buffer.bankCount,
      runner.design.tally ⟨[configuration.buffer.name], action, [bank]⟩ = some 0
  buffer_only : ∀ address count, address.path.head? = some configuration.buffer.name →
    runner.design.tally address = some count → count = 0

/-! ### One log -/

namespace Serving

theorem tally_of_zero (hready : start.Ready) (h : Serving start log runner)
    (hlength : log.length < 2 ^ 63) {address : Address}
    (hzero : start.design.tally address = some 0) : runner.design.tally address =
      some (totalAt address (log.flatMap (recordings start.element))) := by
  rw [h.tally_eq hready hlength, hzero, Option.map_some, Nat.zero_add]

/-- Of a log of fewer than `2 ^ 63` jobs, all counters are known. -/
theorem accounts (hsizes : configuration.Storable) (hcreate : create configuration = .ok start)
    (h : Serving start log runner) (hlength : log.length < 2 ^ 63) :
    Accounts configuration log runner := by
  obtain ⟨buffer, mac, scratchpad, hcreated⟩ := (create_eq_ok_iff hsizes).mp hcreate
  have hready := hcreated.ready
  have helement := hcreated.element_eq
  have hname := hcreated.name_eq.symm
  have hbanks : configuration.element.bankCount = start.element.scratchpad.bankCount := by
    rw [helement]; rfl
  have hbank (address : Nat) :
      address % configuration.element.bankCount = start.element.scratchpad.bank address := by
    rw [Memory.bank, Nat.max_eq_left hready.bankCount_pos, hbanks]
  have hbuffer (address : Address) (hhead : address.path.head? = some configuration.buffer.name) :
      totalAt address (log.flatMap (recordings start.element)) = 0 := by
    refine totalAt_elsewhere _ _ ?_
    rw [hhead, ← hname]
    simpa using hcreated.names_ne
  exact {
    results := fun done hdone ↦ by
      rw [h.result_eq done hdone, helement]
      rfl
    words := fun address haddress ↦ by
      rw [h.peek_eq, hready.peek_of_lt address (by rw [helement]; exact haddress)]
      rcases lastWritten address log with _ | word <;> rfl
    reads := fun bank hlt ↦ by
      have hzero := hready.tally_scratchpad _ (.inl rfl) bank (hbanks ▸ hlt)
      rw [hname, h.tally_of_zero hready hlength hzero, totalAt_reads]
      simp only [hbank]
    writes := fun bank hlt ↦ by
      have hzero := hready.tally_scratchpad _ (.inr rfl) bank (hbanks ▸ hlt)
      rw [hname, h.tally_of_zero hready hlength hzero, totalAt_writes]
      simp only [hbank]
    operations := by
      refine ⟨log.countP (fun done ↦ ¬ done.Multiplies) + log.length, ?_, ?_, ?_⟩
      · rw [hname, h.tally_of_zero hready hlength (hready.tally_mac _ (.inl rfl)), totalAt_random]
      · rw [hname, h.tally_of_zero hready hlength (hready.tally_mac _ (.inr rfl)), totalAt_gated]
      · have hsplit := log.length_eq_countP_add_countP fun done ↦ decide done.Multiplies
        simp only [decide_eq_true_eq] at hsplit
        omega
    buffer := fun action haction bank hlt ↦ by
      have hzero := hcreated.tally_eq_zero hcreated.find_buffer
        (Memory.exists_counterValue hcreated.buffer_build haction hlt)
      rw [h.tally_of_zero hready hlength hzero, hbuffer _ rfl]
    buffer_only := fun address count hhead hcount ↦ by
      rw [h.tally_eq hready hlength, hbuffer address hhead] at hcount
      obtain ⟨initial, hinitial, rfl⟩ := Option.map_eq_some_iff.mp hcount
      exact hready.fresh.unused _ _ hinitial }

/-! ### Runs -/

/-- Running jobs extends the log by those in range. -/
theorem after_attempts (hready : start.Ready) (h : Serving start log runner) {jobs : List Job}
    (hbound : log.length +
      (jobs.filter (·.InRange start.element.scratchpad.depth)).length < 2 ^ 63) :
    Serving start (log ++ (attemptAll jobs runner).1) (attemptAll jobs runner).2 ∧
      (attemptAll jobs runner).1.map CompletedJob.job =
        jobs.filter (·.InRange start.element.scratchpad.depth) := by
  induction jobs generalizing log runner with
  | nil => exact ⟨by simpa [attemptAll] using h, rfl⟩
  | cons job jobs ih =>
    by_cases hjob : job.InRange start.element.scratchpad.depth
    · have hfilter : (job :: jobs).filter (·.InRange start.element.scratchpad.depth) =
          job :: jobs.filter (·.InRange start.element.scratchpad.depth) := by simp [hjob]
      rw [hfilter, List.length_cons] at hbound
      obtain ⟨next, hrun, hnext⟩ := h.runJob_of_inRange hready hjob (by omega)
      have hroom : (log ++ [entry runner job]).length +
          (jobs.filter (·.InRange start.element.scratchpad.depth)).length < 2 ^ 63 := by
        rw [List.length_append, List.length_singleton]
        omega
      obtain ⟨hserving, hjobs⟩ := ih hnext hroom
      have hattempt : attemptAll (job :: jobs) runner =
          (entry runner job :: (attemptAll jobs next).1,
            (attemptAll jobs next).2) := by
        rw [attemptAll, hrun]
        rfl
      rw [hattempt, hfilter]
      exact ⟨by simpa using hserving, congrArg (job :: ·) hjobs⟩
    · have hfilter : (job :: jobs).filter (·.InRange start.element.scratchpad.depth) =
          jobs.filter (·.InRange start.element.scratchpad.depth) := by simp [hjob]
      rw [hfilter] at hbound
      have hrun := h.runJob_of_not_inRange hready (by omega) hjob
      rw [attemptAll, hrun, hfilter]
      exact ih h hbound

end Serving

/-- Jobs that are all in range all succeed. -/
theorem after_attempts_of_inRange (hsizes : configuration.Storable)
    (hcreate : create configuration = .ok start) {jobs : List Job}
    (hjobs : ∀ job ∈ jobs, job.InRange configuration.element.depth)
    (hlength : jobs.length < 2 ^ 63) :
    Serving start (attemptAll jobs start).1 (attemptAll jobs start).2 ∧
      (attemptAll jobs start).1.length = jobs.length := by
  obtain ⟨buffer, mac, scratchpad, hcreated⟩ := (create_eq_ok_iff hsizes).mp hcreate
  have hdepth := hcreated.depth_eq.symm
  have hfilter : jobs.filter (·.InRange start.element.scratchpad.depth) = jobs :=
    List.filter_eq_self.mpr fun job hjob ↦ decide_eq_true (hdepth ▸ hjobs job hjob)
  have hbound : ([] : List CompletedJob).length +
      (jobs.filter (·.InRange start.element.scratchpad.depth)).length < 2 ^ 63 := by
    rw [hfilter, List.length_nil, Nat.zero_add]
    exact hlength
  obtain ⟨hserving, hlog⟩ := (Serving.refl start).after_attempts hcreated.ready hbound
  exact ⟨hserving, by rw [← List.length_map CompletedJob.job, hlog, hfilter]⟩

theorem attemptAll_append (before rest : List Job) (runner : Runner) :
    attemptAll (before ++ rest) runner =
      ((attemptAll before runner).1 ++ (attemptAll rest (attemptAll before runner).2).1,
        (attemptAll rest (attemptAll before runner).2).2) := by
  induction before generalizing runner with
  | nil => rfl
  | cons job before ih =>
    rw [List.cons_append, attemptAll, attemptAll]
    rcases runJob job runner with ⟨result, next⟩ | ⟨cause, next⟩
    · simp only [ih, List.cons_append]
    · exact ih next

/-- The same job in range, over and over. -/
theorem exists_attempts_replicate (hsizes : configuration.Storable)
    (hcreate : create configuration = .ok start) {job : Job}
    (hjob : job.InRange configuration.element.depth) {count : Nat} (hcount : count < 2 ^ 63) :
    ∃ log runner, attemptAll (List.replicate count job) start = (log, runner) ∧
      Serving start log runner ∧ log.length = count := by
  have hjobs : ∀ other ∈ List.replicate count job, other.InRange configuration.element.depth :=
    fun other hmem ↦ List.eq_of_mem_replicate hmem ▸ hjob
  obtain ⟨hserving, hlength⟩ := after_attempts_of_inRange hsizes hcreate hjobs
    (by rwa [List.length_replicate])
  exact ⟨_, _, rfl, hserving, by rw [hlength, List.length_replicate]⟩

theorem countP_mod_one (key : CompletedJob → Nat) (log : List CompletedJob) :
    log.countP (fun done ↦ key done % 1 = 0) = log.length := by simp [Nat.mod_one]

/-- In a memory with one bank every access is to the same. -/
theorem reads_of_one_bank (hbanks : configuration.element.bankCount = 1)
    (h : Accounts configuration log runner) : runner.design.tally
      ⟨[configuration.element.name, scratchpadName], Memory.readAction, [0]⟩ =
        some (2 * log.length) := by
  rw [h.reads 0 (by omega), hbanks, countP_mod_one, countP_mod_one, Nat.two_mul]

/-! ### A full counter -/

/-- A job that reads one bank twice fails between its reads when the counter can take just one. The
first read has been counted by then. -/
theorem Serving.runJob_of_full (hready : start.Ready) (h : Serving start log runner) {job : Job}
    (hjob : job.InRange start.element.scratchpad.depth)
    (hsame : start.element.scratchpad.bank job.second = start.element.scratchpad.bank job.first)
    {address : Address} (haddress : address = ⟨[start.element.name, scratchpadName],
      Memory.readAction, [start.element.scratchpad.bank job.first]⟩)
    (hfull : runner.design.tally address = some (Word.top - 1)) :
    ∃ index next, runJob job runner =
        .error (.model (.counterOverflow Memory.readAction index 1)) next ∧
      next.design.tally address = some Word.top := by
  have hroot := h.wellFormed hready
  obtain ⟨rest, hrecordings⟩ : ∃ rest, (entry runner job).recordings start.element =
      ⟨address, 1⟩ :: ⟨address, 1⟩ :: rest := by
    simp only [CompletedJob.recordings, ProcessingElement.recordings, entry_job, hsame, haddress]
    exact ⟨_, rfl⟩
  have hfirst : Word.top - 1 + 1 ≤ Word.top := Nat.le_refl Word.top
  have hsecond : Word.top < Word.top - 1 + 1 + 1 := Nat.lt_succ_self Word.top
  obtain ⟨index, hperform⟩ : ∃ index,
      Recording.performAll (⟨address, 1⟩ :: ⟨address, 1⟩ :: rest) runner.design =
        .error (.model (.counterOverflow address.action index 1))
          ((⟨address, 1⟩ : Recording).after runner.design) :=
    Recording.performAll_of_lt hroot hfull hfirst hsecond rest
  have hafter : ((⟨address, 1⟩ : Recording).after runner.design).tally address =
      some (Word.top - 1 + 1) := Recording.tally_after_of_le hroot hfull hfirst
  have haction : address.action = Memory.readAction := by rw [haddress]
  rw [haction] at hperform
  exact ⟨index, _, by rw [h.runJob_eq hready hjob, hrecordings, hperform], hafter⟩

/-- With one bank, the reads of `2 ^ 63 - 1` jobs leave room for one read and not for the second. -/
theorem Serving.runJob_of_last (hsizes : configuration.Storable)
    (hcreate : create configuration = .ok start) (hbanks : configuration.element.bankCount = 1)
    (h : Serving start log runner) (hlength : log.length + 1 = 2 ^ 63) {job : Job}
    (hjob : job.InRange configuration.element.depth) :
    ∃ index next, runJob job runner =
        .error (.model (.counterOverflow Memory.readAction index 1)) next ∧
      next.design.tally ⟨[configuration.element.name, scratchpadName], Memory.readAction, [0]⟩ =
        some Word.top := by
  obtain ⟨buffer, mac, scratchpad, hcreated⟩ := (create_eq_ok_iff hsizes).mp hcreate
  have helement := hcreated.element_eq
  have hbank (address : Nat) : start.element.scratchpad.bank address = 0 := by
    have hone : start.element.scratchpad.bankCount = 1 := by
      rw [helement]
      exact hbanks
    rw [Memory.bank, hone, Nat.max_self, Nat.mod_one]
  have hfull : runner.design.tally
      ⟨[configuration.element.name, scratchpadName], Memory.readAction, [0]⟩ =
        some (Word.top - 1) := by
    have htop : Word.top = 2 ^ 64 - 1 := rfl
    rw [reads_of_one_bank hbanks (h.accounts hsizes hcreate (by omega))]
    exact congrArg some (by omega)
  refine h.runJob_of_full hcreated.ready ?_ ?_ ?_ hfull
  · rw [helement]
    exact hjob
  · rw [hbank, hbank]
  · rw [hbank, helement]
    rfl

/-! ### What jobs count -/

/-- The default configuration can be created. -/
theorem exists_create_default : ∃ start, create {} = .ok start :=
  (exists_create_iff ⟨by decide, by decide, by decide, by decide⟩).mpr
    ⟨by decide, by decide, by decide⟩

/-- A runner counts exactly what its jobs did. Of any jobs, fewer than `2 ^ 63` of them in range,
those in range succeed and the others fail; each returns its offset in the width of the unit; a word
of the scratchpad is the last result written there; the counters of the scratchpad and of the unit
are the numbers of these jobs that have read and written a bank and have multiplied; and nothing is
counted on the buffer. -/
theorem counts_of_jobs (hsizes : configuration.Storable)
    (hcreate : create configuration = .ok start) (jobs : List Job)
    (hbound : (jobs.filter (·.InRange configuration.element.depth)).length < 2 ^ 63) :
    (attemptAll jobs start).1.map CompletedJob.job =
        jobs.filter (·.InRange configuration.element.depth) ∧
      Accounts configuration (attemptAll jobs start).1 (attemptAll jobs start).2 := by
  obtain ⟨buffer, mac, scratchpad, hcreated⟩ := (create_eq_ok_iff hsizes).mp hcreate
  rw [← hcreated.depth_eq] at hbound ⊢
  obtain ⟨hserving, hjobs⟩ :=
    (Serving.refl start).after_attempts hcreated.ready (by simpa using hbound)
  refine ⟨hjobs, Serving.accounts hsizes hcreate hserving ?_⟩
  rw [← List.length_map CompletedJob.job, hjobs]
  exact hbound

/-- Of three jobs the second is out of range, and the third finds the result of the first. -/
theorem counts_of_jobs_sample :
    let jobs : List Job := [⟨3, 0, 70000⟩, ⟨20, 0, 1⟩, ⟨0, 0, -1⟩]
    ({} : Configuration).Storable ∧ ∃ start, create {} = .ok start ∧
      (jobs.filter (·.InRange ({} : Configuration).element.depth)).length < 2 ^ 63 ∧
      (attemptAll jobs start).1.map CompletedJob.job = [⟨3, 0, 70000⟩, ⟨0, 0, -1⟩] ∧
      (attemptAll jobs start).1.map CompletedJob.result = [4464, -1] ∧
      (attemptAll jobs start).2.design.tally ⟨["my_PE", "PE_spad"], "read_random", [0]⟩ =
        some 4 := by
  intro jobs
  obtain ⟨start, hstart⟩ := exists_create_default
  have hbound : (jobs.filter (·.InRange ({} : Configuration).element.depth)).length < 2 ^ 63 := by
    decide
  have hsizes : ({} : Configuration).Storable := ⟨by decide, by decide, by decide, by decide⟩
  obtain ⟨hjobs, haccounts⟩ := counts_of_jobs hsizes hstart jobs hbound
  refine ⟨hsizes, start, hstart, hbound, hjobs, ?_, ?_⟩
  · have hresults : (attemptAll jobs start).1.map CompletedJob.result =
        ((attemptAll jobs start).1.map CompletedJob.job).map fun job ↦
          Signed.narrow 16 job.offset := by
      rw [List.map_map]
      exact List.map_congr_left haccounts.results
    rw [hresults, hjobs]
    decide
  · have hlength := congrArg List.length hjobs
    rw [List.length_map] at hlength
    exact (reads_of_one_bank rfl haccounts).trans (by rw [hlength]; decide)

/-- With `2 ^ 63` jobs in range, fewer than `2 ^ 63` succeed: the last one fails after its first
read. The counter of reads then is at one more than the reads of the jobs that have succeeded. -/
theorem half_recorded_job : ∃ start log next,
    ({} : Configuration).Storable ∧ create {} = .ok start ∧
      attemptAll (List.replicate (2 ^ 63) ⟨0, 0, 0⟩) start = (log, next) ∧
      log.length < 2 ^ 63 ∧
      log.countP (fun done ↦ done.job.first % 1 = 0) +
        log.countP (fun done ↦ done.job.second % 1 = 0) = 2 ^ 64 - 2 ∧
      next.design.tally ⟨["my_PE", "PE_spad"], "read_random", [0]⟩ = some (2 ^ 64 - 1) := by
  have hsizes : ({} : Configuration).Storable := ⟨by decide, by decide, by decide, by decide⟩
  have hjob : (⟨0, 0, 0⟩ : Job).InRange ({} : Configuration).element.depth := by decide
  obtain ⟨start, hstart⟩ := exists_create_default
  -- All jobs but the last are counted in full.
  obtain ⟨count, hcount⟩ : ∃ count, count + 1 = 2 ^ 63 := ⟨2 ^ 63 - 1, rfl⟩
  obtain ⟨log, runner, hbefore, hserving, hlength⟩ :=
    exists_attempts_replicate hsizes hstart hjob (by omega : count < 2 ^ 63)
  obtain ⟨index, next, hrun, htally⟩ :=
    hserving.runJob_of_last hsizes hstart rfl (by omega) hjob
  have hattempt : attemptAll (List.replicate (2 ^ 63) ⟨0, 0, 0⟩) start = (log, next) := by
    rw [← hcount, List.replicate_succ', attemptAll_append, hbefore, attemptAll, hrun]
    simp only [attemptAll, List.append_nil]
  refine ⟨start, log, next, hsizes, hstart, hattempt, by omega, ?_, htally⟩
  rw [countP_mod_one (·.job.first), countP_mod_one (·.job.second)]
  omega

end CountTree.Runner
