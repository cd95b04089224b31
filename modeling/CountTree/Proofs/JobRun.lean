import CountTree.Proofs.Creation
import CountTree.Proofs.JobLog
import CountTree.Proofs.SignedWords

/-!
What a runner has after any number of jobs. `Serving start log runner` says that the runner has come
from `start` by exactly the jobs of the log: the tree is that of the start with their recordings,
and each word of the scratchpad is the last result written there. One job either extends the log by
its entry (`runJob_of_inRange`) or leaves everything as it was (`runJob_of_not_inRange`).
-/

set_option autoImplicit false
set_option relaxedAutoImplicit false

namespace CountTree

open Component ProcessingElement CompletedJob

/-- The element with other words in its scratchpad. -/
def ProcessingElement.withWords (element : ProcessingElement) (words : List Int) :
    ProcessingElement :=
  { element with scratchpad := { element.scratchpad with words } }

namespace Runner

variable {start runner : Runner} {log : List CompletedJob} {job : Job}

namespace Ready

/-- Each recording of a job has its counter. -/
theorem hasCounter (hready : start.Ready) (done : CompletedJob) :
    ∀ recording ∈ done.recordings start.element, start.design.HasCounter recording.address := by
  have hbank (address : Nat) :
      start.element.scratchpad.bank address < start.element.scratchpad.bankCount := by
    rw [Memory.bank, Nat.max_eq_left hready.bankCount_pos]
    exact Nat.mod_lt _ hready.bankCount_pos
  have hscratchpad (action : String)
      (haction : action = Memory.readAction ∨ action = Memory.writeAction) (address : Nat) :
      start.design.HasCounter ⟨[start.element.name, scratchpadName], action,
        [start.element.scratchpad.bank address]⟩ :=
    hasCounter_iff.mpr ⟨0, hready.tally_scratchpad action haction _ (hbank address)⟩
  have hmac (action : String) (haction : action = Mac.randomAction ∨ action = Mac.gatedAction) :
      start.design.HasCounter ⟨[start.element.name, macName], action, []⟩ :=
    hasCounter_iff.mpr ⟨0, hready.tally_mac action haction⟩
  simp only [CompletedJob.recordings, ProcessingElement.recordings, List.map_cons, List.map_nil,
    List.forall_mem_cons]
  exact ⟨hscratchpad _ (.inl rfl) _, hscratchpad _ (.inl rfl) _, hmac _ (Mac.action_cases _ _),
    hmac _ (.inr rfl), hscratchpad _ (.inr rfl) _, fun _ h ↦ absurd h List.not_mem_nil⟩

/-- The counters have room for two recordings from each of fewer than `2 ^ 63` jobs. -/
theorem fits (hready : start.Ready) (hlength : log.length < 2 ^ 63) :
    Fits start.design (log.flatMap (recordings start.element)) := by
  intro address initial hinitial
  have htotal := totalAt_log_le start.element log address
  have htop : Word.top = 2 ^ 64 - 1 := rfl
  rw [hready.fresh.unused _ _ hinitial, htop]
  omega

end Ready

/-! ### What the jobs of a log have done -/

/-- The runner has come from the other one by the jobs of a log. -/
structure Serving (start : Runner) (log : List CompletedJob) (runner : Runner) : Prop where
  design_eq : runner.design = (runAll (log.flatMap (recordings start.element)) start.design).2
  element_eq : ∃ words, runner.element = start.element.withWords words
  jobs_eq : runner.jobs = start.jobs
  peek_eq : ∀ address, runner.element.scratchpad.peek address =
    (lastWritten address log).or (start.element.scratchpad.peek address)
  result_eq : ∀ done ∈ log,
    done.result = Signed.narrow start.element.mac.bitWidth done.job.offset

/-- The entry of a job that starts now. -/
def entry (runner : Runner) (job : Job) : CompletedJob :=
  ⟨job, runner.element.scratchpad, Signed.narrow runner.element.mac.bitWidth job.offset⟩

theorem entry_job (runner : Runner) (job : Job) : (entry runner job).job = job := rfl

theorem Serving.refl (start : Runner) : Serving start [] start where
  design_eq := rfl
  element_eq := ⟨start.element.scratchpad.words, rfl⟩
  jobs_eq := rfl
  peek_eq _ := rfl
  result_eq _ hdone := absurd hdone List.not_mem_nil

namespace Serving

theorem tally_eq (hready : start.Ready) (h : Serving start log runner)
    (hlength : log.length < 2 ^ 63) (address : Address) : runner.design.tally address =
      (start.design.tally address).map
        (· + totalAt address (log.flatMap (recordings start.element))) := by
  rw [h.design_eq]
  exact tally_runAll_of_fits hready.fresh.reachable.wellFormed (hready.fits hlength) address

theorem wellFormed (hready : start.Ready) (h : Serving start log runner) :
    Everywhere WellFormed runner.design := by
  rw [h.design_eq]
  exact wellFormed_runAll hready.fresh.reachable.wellFormed _

/-- No counter is lost. -/
theorem hasCounter (hready : start.Ready) (h : Serving start log runner)
    (hlength : log.length < 2 ^ 63) {address : Address}
    (hcounter : start.design.HasCounter address) : runner.design.HasCounter address := by
  rw [h.design_eq]
  exact hasCounter_runAll_of_fits hready.fresh.reachable.wellFormed (hready.fits hlength) hcounter

theorem name_eq (h : Serving start log runner) : runner.element.name = start.element.name := by
  obtain ⟨words, hwords⟩ := h.element_eq
  rw [hwords]
  rfl

theorem depth_eq (h : Serving start log runner) :
    runner.element.scratchpad.depth = start.element.scratchpad.depth := by
  obtain ⟨words, hwords⟩ := h.element_eq
  rw [hwords]
  rfl

theorem entry_result (h : Serving start log runner) (job : Job) :
    (entry runner job).result = Signed.narrow start.element.mac.bitWidth job.offset := by
  obtain ⟨words, hwords⟩ := h.element_eq
  rw [entry, hwords]
  rfl

/-- There is a word at every address in range. -/
theorem exists_peek_of_lt (hready : start.Ready) (h : Serving start log runner) {address : Nat}
    (haddress : address < start.element.scratchpad.depth) :
    ∃ word, runner.element.scratchpad.peek address = some word := by
  rw [h.peek_eq, hready.peek_of_lt address haddress]
  rcases lastWritten address log with _ | word
  · exact ⟨_, rfl⟩
  · exact ⟨word, rfl⟩

/-- A job in range is its recordings, and with them its result is stored. -/
theorem runJob_eq (hready : start.Ready) (h : Serving start log runner)
    (hjob : job.InRange start.element.scratchpad.depth) :
    let done := entry runner job
    let scratchpad := runner.element.scratchpad.store job.second [done.result]
    runJob job runner =
      match Recording.performAll (done.recordings start.element) runner.design with
      | .ok _ design => .ok done.result
        { runner with design, element := { runner.element with scratchpad } }
      | .error cause design => .error cause { runner with design } := by
  intro done scratchpad
  obtain ⟨word, hword⟩ := h.exists_peek_of_lt hready hjob.1
  obtain ⟨word', hword'⟩ := h.exists_peek_of_lt hready hjob.2
  obtain ⟨words, helement⟩ := h.element_eq
  have hdepth := h.depth_eq
  have hoperands : done.operands = (word, word') := by
    simp only [done, entry, CompletedJob.operands, hword, hword', Option.getD_some]
  have hrecordings : (runner.element.recordings job (word, word')).map
      (.under runner.element.name) = done.recordings start.element := by
    rw [CompletedJob.recordings, hoperands, helement]
    rfl
  have hne : runner.element.recordings job (word, word') ≠ [] := List.cons_ne_nil _ _
  have hprocess := process_of_lt (hdepth ▸ hjob.1) (hdepth ▸ hjob.2) hword hword'
  rw [runJob, Run.onPart, onUnit_of_commit hprocess, Recording.onChild_performAll _ hne,
    hrecordings]
  rcases Recording.performAll (done.recordings start.element) runner.design with _ | _ <;> rfl

/-- The counters have room for one more job when fewer than `2 ^ 63 - 1` have succeeded. -/
theorem performAll_entry (hready : start.Ready) (h : Serving start log runner)
    (hlength : log.length + 1 < 2 ^ 63) (job : Job) :
    Recording.performAll ((entry runner job).recordings start.element) runner.design =
      .ok () (runAll ((log ++ [entry runner job]).flatMap (recordings start.element))
        start.design).2 := by
  have hlog : (log ++ [entry runner job]).flatMap (recordings start.element) =
      log.flatMap (recordings start.element) ++ (entry runner job).recordings start.element := by
    rw [List.flatMap_append, List.flatMap_singleton]
  have hall : Fits start.design ((log ++ [entry runner job]).flatMap (recordings start.element)) :=
    hready.fits (by simpa using hlength)
  have hcounters : ∀ recording ∈ (entry runner job).recordings start.element,
      runner.design.HasCounter recording.address := fun recording hmem ↦
    h.hasCounter hready (by omega) (hready.hasCounter _ _ hmem)
  rw [hlog] at hall
  rw [hlog, runAll_append, ← h.design_eq]
  refine Recording.performAll_of_fits (h.wellFormed hready) hcounters ?_
  rw [h.design_eq]
  exact hall.of_append hready.fresh.reachable.wellFormed

/-- A job in range extends the log by its entry. -/
theorem runJob_of_inRange (hready : start.Ready) (h : Serving start log runner)
    (hjob : job.InRange start.element.scratchpad.depth) (hlength : log.length + 1 < 2 ^ 63) :
    ∃ next, runJob job runner = .ok (entry runner job).result next ∧
      Serving start (log ++ [entry runner job]) next := by
  obtain ⟨words, helement⟩ := h.element_eq
  obtain ⟨old, hold⟩ := h.exists_peek_of_lt hready hjob.2
  have hlt : job.second < runner.element.scratchpad.words.length :=
    (List.getElem?_eq_some_iff.mp hold).1
  refine ⟨_, by rw [h.runJob_eq hready hjob, h.performAll_entry hready hlength], ?_⟩
  exact {
    design_eq := rfl
    element_eq := by
      rw [Memory.store_singleton hlt, helement]
      exact ⟨_, rfl⟩
    jobs_eq := h.jobs_eq
    peek_eq := fun address ↦ by
      rw [lastWritten_append_singleton, entry_job, Memory.peek_store_singleton hlt, h.peek_eq]
      by_cases haddress : address = job.second
      · rw [if_pos haddress, if_pos haddress, Option.some_or]
      · rw [if_neg haddress, if_neg haddress]
    result_eq := fun done hdone ↦ by
      rcases List.mem_append.mp hdone with hdone | hdone
      · exact h.result_eq done hdone
      · rw [List.mem_singleton.mp hdone, h.entry_result, entry_job] }

/-- A job with an address out of range fails before it records anything. -/
theorem runJob_of_not_inRange (hready : start.Ready) (h : Serving start log runner)
    (hlength : log.length < 2 ^ 63) (hjob : ¬ job.InRange start.element.scratchpad.depth) :
    runJob job runner = .error (misaddressed start.element.scratchpad.depth job) runner := by
  have hzero := hready.tally_scratchpad _ (.inl rfl) _ hready.bankCount_pos
  obtain ⟨found, -, -, hfind, -⟩ := h.hasCounter hready hlength (hasCounter_iff.mpr ⟨0, hzero⟩)
  rw [find_cons] at hfind
  obtain ⟨element, helement, hfind⟩ := Option.bind_eq_some_iff.mp hfind
  rw [find_cons] at hfind
  obtain ⟨scratchpad, hscratchpad, -⟩ := Option.bind_eq_some_iff.mp hfind
  have hout : runner.element.scratchpad.depth ≤ job.first ∨
      runner.element.scratchpad.depth ≤ job.second := by
    rw [Job.InRange] at hjob
    rw [h.depth_eq]
    omega
  have hprocess := process_of_le hscratchpad hout
  rw [runJob, Run.onPart, onUnit_of_error (h.name_eq ▸ helement) hprocess, h.depth_eq]
  rfl

end Serving

end Runner

end CountTree
