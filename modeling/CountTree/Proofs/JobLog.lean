import CountTree.Proofs.Job

/-!
A log of completed jobs. Each entry keeps the job, the scratchpad that the job found, and its
result. What a job has recorded can be told from its entry, and so can the total of a log at every
counter (`totalAt_reads`, `totalAt_writes`, `totalAt_random`, `totalAt_gated`, `totalAt_elsewhere`):
each is a number of entries with a property. No counter gets more than two a job (`totalAt_log_le`).
-/

set_option autoImplicit false
set_option relaxedAutoImplicit false

namespace CountTree

open Component ProcessingElement

/-- Both addresses are those of words. -/
def Job.InRange (depth : Nat) (job : Job) : Prop := job.first < depth ∧ job.second < depth

instance (depth : Nat) : DecidablePred (Job.InRange depth) := fun _ ↦ instDecidableAnd

/-- A job that has succeeded, with the scratchpad as it was just before. -/
structure CompletedJob where
  job : Job
  scratchpad : Memory
  result : Int

namespace CompletedJob

/-- The words that the job has read. -/
def operands (done : CompletedJob) : Int × Int :=
  ((done.scratchpad.peek done.job.first).getD 0, (done.scratchpad.peek done.job.second).getD 0)

/-- Neither of the words was zero. -/
def Multiplies (done : CompletedJob) : Prop := done.operands.1 ≠ 0 ∧ done.operands.2 ≠ 0

instance : DecidablePred Multiplies := fun _ ↦ instDecidableAnd

/-- What the job has recorded in a design with this element. -/
def recordings (element : ProcessingElement) (done : CompletedJob) : List Recording :=
  (element.recordings done.job done.operands).map (.under element.name)

/-- The last result that was written to an address. -/
def lastWritten (address : Nat) (log : List CompletedJob) : Option Int :=
  (log.filter (·.job.second = address)).getLast?.map result

theorem lastWritten_append_singleton (address : Nat) (log : List CompletedJob)
    (done : CompletedJob) : lastWritten address (log ++ [done]) =
      if address = done.job.second then some done.result else lastWritten address log := by
  rw [lastWritten, List.filter_append]
  by_cases h : address = done.job.second
  · subst h
    simp
  · simp [h, Ne.symm h, lastWritten]

variable (element : ProcessingElement) (done : CompletedJob) (log : List CompletedJob)
  (address : Address) (bank : Nat)

/-! ### Totals of one job -/

theorem totalAt_recordings : totalAt address (done.recordings element) =
    (if ⟨[element.name, scratchpadName], Memory.readAction,
        [element.scratchpad.bank done.job.first]⟩ = address then 1 else 0) +
      ((if ⟨[element.name, scratchpadName], Memory.readAction,
          [element.scratchpad.bank done.job.second]⟩ = address then 1 else 0) +
        ((if ⟨[element.name, macName], Mac.action done.operands.1 done.operands.2, []⟩ = address
            then 1 else 0) +
          ((if ⟨[element.name, macName], Mac.gatedAction, []⟩ = address then 1 else 0) +
            if ⟨[element.name, scratchpadName], Memory.writeAction,
              [element.scratchpad.bank done.job.second]⟩ = address then 1 else 0))) := by
  simp only [recordings, ProcessingElement.recordings, List.map_cons, List.map_nil, totalAt_cons,
    Recording.under]
  rfl

/-- Reads, writes and operations of the unit have different actions, so that no more than two of the
five recordings go to one counter. -/
theorem totalAt_recordings_le : totalAt address (done.recordings element) ≤ 2 := by
  have hunit := Mac.action_cases done.operands.1 done.operands.2
  have hle (p : Prop) [Decidable p] : (if p then 1 else 0) ≤ 1 := by split <;> decide
  obtain ⟨path, action, arguments⟩ := address
  rw [totalAt_recordings]
  simp only [Address.mk.injEq]
  by_cases hread : Memory.readAction = action
  · subst hread
    have hmac : Mac.action done.operands.1 done.operands.2 ≠ Memory.readAction := by
      rcases hunit with h | h <;> rw [h] <;> decide
    have hgated : Mac.gatedAction ≠ Memory.readAction := by decide
    have hwrite : Memory.writeAction ≠ Memory.readAction := by decide
    simp only [hmac, hgated, hwrite, false_and, and_false, if_false, Nat.add_zero]
    exact Nat.add_le_add (hle _) (hle _)
  by_cases hwrite : Memory.writeAction = action
  · subst hwrite
    have hmac : Mac.action done.operands.1 done.operands.2 ≠ Memory.writeAction := by
      rcases hunit with h | h <;> rw [h] <;> decide
    have hgated : Mac.gatedAction ≠ Memory.writeAction := by decide
    simp only [hread, hmac, hgated, false_and, and_false, if_false, Nat.zero_add]
    exact Nat.le_succ_of_le (hle _)
  · simp only [hread, hwrite, false_and, and_false, if_false, Nat.zero_add, Nat.add_zero]
    exact Nat.add_le_add (hle _) (hle _)

/-! ### Totals of a log -/

theorem totalAt_log_le :
    totalAt address (log.flatMap (recordings element)) ≤ 2 * log.length := by
  induction log with
  | nil => exact Nat.le_refl 0
  | cons done log ih =>
    have hdone := totalAt_recordings_le element done address
    rw [List.flatMap_cons, totalAt_append, List.length_cons]
    omega

/-- A counter that gets one from each job with a property, and one from each with another. -/
theorem totalAt_log {address : Address} {p q : CompletedJob → Bool}
    (h : ∀ done, totalAt address (recordings element done) =
      (if p done then 1 else 0) + if q done then 1 else 0) :
    totalAt address (log.flatMap (recordings element)) = log.countP p + log.countP q := by
  induction log with
  | nil => rfl
  | cons done log ih =>
    rw [List.flatMap_cons, totalAt_append, h, ih, List.countP_cons, List.countP_cons]
    omega

theorem countP_none : log.countP (fun _ ↦ false) = 0 := by simp

theorem totalAt_reads :
    totalAt ⟨[element.name, scratchpadName], Memory.readAction, [bank]⟩
        (log.flatMap (recordings element)) =
      log.countP (fun done ↦ element.scratchpad.bank done.job.first = bank) +
        log.countP (fun done ↦ element.scratchpad.bank done.job.second = bank) := by
  refine totalAt_log element log fun done ↦ ?_
  simp [totalAt_recordings, scratchpadName, macName, Memory.readAction, Memory.writeAction]

theorem totalAt_writes :
    totalAt ⟨[element.name, scratchpadName], Memory.writeAction, [bank]⟩
        (log.flatMap (recordings element)) =
      log.countP fun done ↦ element.scratchpad.bank done.job.second = bank := by
  rw [← Nat.add_zero (log.countP _), ← countP_none log]
  refine totalAt_log element log fun done ↦ ?_
  simp [totalAt_recordings, scratchpadName, macName, Memory.readAction, Memory.writeAction]

theorem totalAt_random :
    totalAt ⟨[element.name, macName], Mac.randomAction, []⟩ (log.flatMap (recordings element)) =
      log.countP fun done ↦ done.Multiplies := by
  rw [← Nat.add_zero (log.countP _), ← countP_none log]
  refine totalAt_log element log fun done ↦ ?_
  by_cases h : done.Multiplies <;> have h' := h <;> rw [Multiplies] at h' <;>
    simp [totalAt_recordings, scratchpadName, macName, Mac.action, Mac.randomAction,
      Mac.gatedAction, h, h']

/-- Every job is gated in its second operation, and those that do not multiply in the first too. -/
theorem totalAt_gated :
    totalAt ⟨[element.name, macName], Mac.gatedAction, []⟩ (log.flatMap (recordings element)) =
      log.countP (fun done ↦ ¬ done.Multiplies) + log.length := by
  rw [← List.countP_true]
  refine totalAt_log element log fun done ↦ ?_
  by_cases h : done.Multiplies <;> have h' := h <;> rw [Multiplies] at h' <;>
    simp [totalAt_recordings, scratchpadName, macName, Mac.action, Mac.randomAction,
      Mac.gatedAction, h, h']

theorem totalAt_elsewhere {address : Address} (h : address.path.head? ≠ some element.name) :
    totalAt address (log.flatMap (recordings element)) = 0 := by
  have hne (name action : String) (arguments : List Nat) :
      ⟨[element.name, name], action, arguments⟩ ≠ address := by
    rintro rfl
    exact h rfl
  rw [← Nat.add_zero 0, ← countP_none log]
  refine totalAt_log element log fun done ↦ ?_
  simp [totalAt_recordings, hne]

end CompletedJob

end CountTree
