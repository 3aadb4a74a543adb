import FileForge.Jobs.Worker

/-!
# Two observers of a failure

The `failed` listener of `src/jobs/worker.ts`, which logs that a job is abandoned, beside the `catch`
block of the processor, which announces and counts a final failure before the attempt is over. The
queue raises `attemptsMade` in between and passes on the error that the processor threw.

The two look at the same attempt from both sides of the increment, so they agree on attempts that run
out (`logsAbandoned_iff`). They differ on errors: the retry policy has marked a permanent failure
unrecoverable before the listener compares its class. `observersAgree_iff` says for which failures
that matters.
-/

set_option autoImplicit false
set_option relaxedAutoImplicit false

namespace FileForge.Jobs.FailureObservers

open Errors Queue Worker

/-! ### The listener -/

/-- `err instanceof MissingFileError`. -/
def isMissingFile : JobError → Bool
  | .missingFile _ => true
  | _ => false

/-- Whether `worker.on('failed')` logs `job_abandoned`. -/
def logsAbandoned (job : Option Job) (error : JobError) : Bool :=
  let exhausted := job.elim true fun job ↦ decide (job.allowedAttempts ≤ job.attemptsMade)
  exhausted || isMissingFile error

/-- The job as the listener receives it after a failed attempt. -/
def jobAfter (job : Job) (attempt : Attempt) : Job :=
  { job with attemptsMade := attempt.attemptsMade + 1 }

/-- An attempt that failed with an error, as its observers see it: the listener logs that the job is
abandoned when the queue does not retry it, and the processor has announced and counted the failure
in that case only. -/
structure ObserversAgree (job : Job) (attempt : Attempt) (error : JobError) : Prop where
  logged : logsAbandoned (some (jobAfter job attempt)) error = true ↔ retries job attempt = false
  announced : publishOf (failedEvent job error.message) ∈ attempt.issued ↔
    retries job attempt = false
  counted : .incrby (counterPrefix ++ CounterName.jobsFailedTotal.text) 1 ∈ attempt.issued ↔
    retries job attempt = false

/-! ### What each of them sees -/

/-- The policy leaves no missing file for the listener to recognise. -/
theorem isMissingFile_marked (error : JobError) : isMissingFile error.marked = false := by
  unfold JobError.marked
  split_ifs with hpermanent
  · rfl
  · cases error with
    | missingFile fileId => exact absurd rfl hpermanent
    | _ => rfl

/-- A failure is unrecoverable for the queue when it was, or when the policy has marked it. -/
theorem isUnrecoverable_marked (error : JobError) :
    error.marked.isUnrecoverable = (isPermanentFailure error || error.isUnrecoverable) := by
  cases error <;> rfl

/-- The listener counts the attempts and nothing else. -/
theorem logsAbandoned_iff (job : Job) (attempt : Attempt) (error : JobError) :
    logsAbandoned (some (jobAfter job attempt)) error.marked = true ↔
      job.allowedAttempts ≤ attempt.attemptsMade + 1 := by
  rw [logsAbandoned, isMissingFile_marked, Bool.or_false]
  exact decide_eq_true_iff

/-- The queue settles the job when the error is unrecoverable or no attempt is left. -/
theorem retries_eq_false_iff (job : Job) {attempt : Attempt} {error : JobError}
    (h : attempt.outcome = .error error) :
    retries job attempt = false ↔
      error.isUnrecoverable = true ∨ job.allowedAttempts ≤ attempt.attemptsMade + 1 := by
  rw [retries, h]
  show (!error.isUnrecoverable && decide (attempt.attemptsMade + 1 < job.allowedAttempts)) = false ↔
    _
  rw [Bool.and_eq_false_iff, Bool.not_eq_false', decide_eq_false_iff_not, not_lt]

theorem startedEvent_ne_failedEvent (job : Job) (message : String) :
    publishOf (startedEvent job) ≠ publishOf (failedEvent job message) := by
  intro h
  have hterminal := congrArg isTerminalPublish h
  rw [isTerminalPublish_publishOf (startedEvent_valid job),
    isTerminalPublish_publishOf (failedEvent_valid job message)] at hterminal
  exact Bool.false_ne_true hterminal

/-- The processor announces and counts a failure exactly when the queue does not retry it. -/
theorem announced_iff {job : Job} {attempt : Attempt} {error : JobError}
    (houtcome : attempt.outcome = .error error)
    (hissued : attempt.issued = publishOf (startedEvent job) ::
      if retries job attempt then [] else outcomeCalls job attempt.outcome) :
    (publishOf (failedEvent job error.message) ∈ attempt.issued ↔ retries job attempt = false) ∧
      (.incrby (counterPrefix ++ CounterName.jobsFailedTotal.text) 1 ∈ attempt.issued ↔
        retries job attempt = false) := by
  rw [hissued, houtcome]
  cases retries job attempt with
  | true =>
    refine ⟨iff_of_false ?_ Bool.true_eq_false.mp, iff_of_false ?_ Bool.true_eq_false.mp⟩
    · intro hmem
      exact startedEvent_ne_failedEvent job error.message (List.mem_singleton.mp hmem).symm
    · intro hmem
      cases List.mem_singleton.mp hmem
  | false =>
    refine ⟨iff_of_true (List.mem_cons_of_mem _ List.mem_cons_self) rfl,
      iff_of_true (List.mem_cons_of_mem _ (List.mem_cons_of_mem _ List.mem_cons_self)) rfl⟩

/-- An attempt that the queue retries is not logged as abandoned. -/
theorem logsAbandoned_of_retries {job : Job} {attempt : Attempt} (error : JobError)
    (h : retries job attempt = true) :
    logsAbandoned (some (jobAfter job attempt)) error.marked = false := by
  have hleft := attemptsMade_lt_of_retries h
  rw [Bool.eq_false_iff, ne_eq, logsAbandoned_iff]
  omega

/-! ### Where they agree -/

/-- For every job, number of attempts and cause of a failure: the observers agree exactly when the
cause can be retried or no attempt is left. -/
theorem observersAgree_iff (job : Job) (cause : JobError) (faults : ℕ → Option JobError)
    (attemptsMade calls : ℕ) :
    ObserversAgree job (attemptOf job (.error cause) faults attemptsMade calls).1 cause.marked ↔
      (isPermanentFailure cause = false ∧ cause.isUnrecoverable = false) ∨
        job.allowedAttempts ≤ attemptsMade + 1 := by
  obtain ⟨hmade, houtcome, hissued⟩ :=
    attemptOf_spec job (.error cause) faults attemptsMade calls rfl
  have hmarked : cause.marked.isUnrecoverable = false ↔
      isPermanentFailure cause = false ∧ cause.isUnrecoverable = false := by
    rw [isUnrecoverable_marked, Bool.or_eq_false_iff]
  obtain ⟨hannounced, hcounted⟩ := announced_iff houtcome hissued
  rw [← hmarked]
  have hlogged := logsAbandoned_iff job (attemptOf job (.error cause) faults attemptsMade calls).1
    cause
  have hretries := retries_eq_false_iff job houtcome
  rw [hmade] at hlogged hretries
  constructor
  · intro h
    have hboth := h.logged
    rw [hlogged, hretries] at hboth
    by_cases hunrecoverable : cause.marked.isUnrecoverable = true
    · exact Or.inr (hboth.mpr (Or.inl hunrecoverable))
    · exact Or.inl (Bool.eq_false_iff.mpr hunrecoverable)
  · intro h
    refine ⟨?_, hannounced, hcounted⟩
    rw [hlogged, hretries]
    rcases h with hretriable | hexhausted
    · exact (or_iff_right (Bool.eq_false_iff.mp hretriable)).symm
    · exact iff_of_true hexhausted (Or.inr hexhausted)

/-- A file that is gone on the first of three attempts: announced, counted, not retried and not
logged as abandoned. -/
theorem not_forall_observersAgree :
    ¬ ∀ (job : Job) (cause : JobError) (faults : ℕ → Option JobError) (attemptsMade calls : ℕ),
      ObserversAgree job (attemptOf job (.error cause) faults attemptsMade calls).1
        cause.marked := by
  intro h
  have hgone := (h { id := "1", operation := "image.resize", attempts := some 3 } (.missingFile "f")
    (fun _ ↦ none) 0 0).logged
  have hlogged := hgone.mpr rfl
  exact absurd hlogged (by decide)

end FileForge.Jobs.FailureObservers
