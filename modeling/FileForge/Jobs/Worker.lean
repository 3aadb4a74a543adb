import FileForge.Foundation.Interaction
import FileForge.Jobs.Errors
import FileForge.Jobs.Events
import FileForge.Jobs.Queue

/-!
# One job, attempt after attempt

The processor of `src/jobs/worker.ts` as a program over its calls: publishing an event and counting
are best effort (`publishJobEvent`, `incrementCounter`), the handler runs under the retry policy
(`runJobWithRetryPolicy`), and a failure is announced only when the processor takes it for final.
`lifetime` is the queue around it: attempts follow one another until the processor returns, throws
an unrecoverable error or has no attempt left.

`processJob_ends` is what one attempt issues and how it ends, whatever becomes of its best-effort
calls. The processor predicts the decision of the queue with its own arithmetic; `IsLast` is both.
`one_outcome` is the whole lifetime: one terminal event and one counted outcome, the ones of the
attempt with which the queue settles the job.
-/

set_option autoImplicit false
set_option relaxedAutoImplicit false

namespace FileForge.Jobs.Worker

open Foundation.JsonValue Foundation.Interaction Shared.Contract Errors Events Queue

/-! ### The calls of a processor -/

/-- `ProcessorResult`. -/
structure ProcessorResult where
  outputs : List String
  details : Option Json := none

/-- The result as it is written. -/
def ProcessorResult.toJson (result : ProcessorResult) : Json :=
  .object (field "outputs" (some (.array (result.outputs.map .string))) ++
    (field "details" result.details ++ []))

/-- The counters of `src/metrics.ts` that the processor increments. -/
inductive CounterName
  | jobsCompletedTotal
  | jobsFailedTotal
  deriving DecidableEq, Repr

def CounterName.text : CounterName → String
  | .jobsCompletedTotal => "jobs_completed_total"
  | .jobsFailedTotal => "jobs_failed_total"

def counterPrefix : String := "metrics:"

inductive Call
  | publish (channel : String) (payload : Json)
  | incrby (key : String) (amount : ℕ)
  /-- `runJob`: the payload is checked and the handler of the operation runs. -/
  | runJob

abbrev Reply : Call → Type
  | .runJob => ProcessorResult
  | _ => Unit

abbrev Task := Program Call Reply JobError

/-- Publishes one event. Best effort: a failure is swallowed. -/
def publishJobEvent (event : JobEvent) : Task Unit :=
  tryCatch (Program.perform (Call.publish (publication event).1 (publication event).2))
    fun _ ↦ pure ()

/-- Increments a counter. Best effort: a failure is swallowed. -/
def incrementCounter (name : CounterName) (amount : ℕ) : Task Unit :=
  tryCatch (Program.perform (Call.incrby (counterPrefix ++ name.text) amount)) fun _ ↦ pure ()

/-- Runs a job and converts failures that a retry cannot fix. -/
def runJobWithRetryPolicy : Task ProcessorResult :=
  tryCatch (Program.perform Call.runJob) fun error ↦ throw error.marked

/-! ### The events of a job -/

def startedEvent (job : Job) : JobEvent :=
  { jobId := job.id, state := .processing, progress := 0, operation := some job.operation }

/-- What the `progress` listener publishes. -/
def progressEvent (job : Job) (value : ℚ) : JobEvent :=
  { jobId := job.id, state := .processing, progress := value, operation := some job.operation }

def completedEvent (job : Job) (result : ProcessorResult) : JobEvent :=
  { jobId := job.id, state := .completed, progress := 100, operation := some job.operation
    result := some result.toJson }

def failedEvent (job : Job) (message : String) : JobEvent :=
  { jobId := job.id, state := .failed, progress := 0, operation := some job.operation
    error := some message }

/-- The failure is final: it is permanent, or this was the last attempt. -/
def announcesFailure (job : Job) (error : JobError) : Bool :=
  error.isUnrecoverable || decide (job.allowedAttempts ≤ job.attemptsMade + 1)

/-- The processor of the worker. -/
def processJob (job : Job) : Task ProcessorResult := do
  publishJobEvent (startedEvent job)
  tryCatch (do
    let result ← runJobWithRetryPolicy
    publishJobEvent (completedEvent job result)
    incrementCounter .jobsCompletedTotal 1
    return result) fun error ↦ do
      if announcesFailure job error then
        publishJobEvent (failedEvent job error.message)
        incrementCounter .jobsFailedTotal 1
      throw error

/-! ### The queue around it -/

/-- The world of one attempt: how the handler ends, and which of the other calls fail and with what.
The state lists the publishes and increments that were issued. -/
def world (handler : Except JobError ProcessorResult) (faults : ℕ → Option JobError) :
    Program.World Call Reply JobError (List Call) := fun calls request issued ↦
  match request with
  | .runJob => (handler, issued)
  | .publish channel payload => (reply calls, issued ++ [.publish channel payload])
  | .incrby key amount => (reply calls, issued ++ [.incrby key amount])
where
  reply (calls : ℕ) : Except JobError Unit := (faults calls).elim (.ok ()) .error

/-- An attempt: how many failed before it, what it issued, and how the processor ended. -/
structure Attempt where
  attemptsMade : ℕ
  issued : List Call
  outcome : Except JobError ProcessorResult

/-- The queue retries a failed attempt unless it is unrecoverable or no attempt is left. -/
def retries (job : Job) (attempt : Attempt) : Bool :=
  match attempt.outcome with
  | .ok _ => false
  | .error error =>
    !error.isUnrecoverable && decide (attempt.attemptsMade + 1 < job.allowedAttempts)

/-- One attempt, and the number of the next call. -/
def attemptOf (job : Job) (handler : Except JobError ProcessorResult)
    (faults : ℕ → Option JobError) (attemptsMade calls : ℕ) : Attempt × ℕ :=
  let ended := Program.run (world handler faults)
    (processJob { job with attemptsMade := attemptsMade }) calls []
  (⟨attemptsMade, ended.state, ended.outcome⟩, ended.calls)

theorem attemptsMade_lt_of_retries {job : Job} {attempt : Attempt} (h : retries job attempt) :
    attempt.attemptsMade + 1 < job.allowedAttempts := by
  unfold retries at h
  split at h
  · cases h
  · simp only [Bool.and_eq_true, decide_eq_true_eq] at h
    exact h.2

/-- The attempts from one on, until the queue settles the job. The handler ends in its own way on
each. -/
def lifetime (job : Job) (handlers : ℕ → Except JobError ProcessorResult)
    (faults : ℕ → Option JobError) (attemptsMade calls : ℕ) : List Attempt :=
  let attempt := attemptOf job (handlers attemptsMade) faults attemptsMade calls
  if _h : retries job attempt.1 then
    attempt.1 :: lifetime job handlers faults (attemptsMade + 1) attempt.2
  else [attempt.1]
termination_by job.allowedAttempts - attemptsMade
decreasing_by
  have hlt : attemptsMade + 1 < job.allowedAttempts := attemptsMade_lt_of_retries _h
  omega

/-! ### One attempt -/

/-- Publishing issues its command and goes on, whether or not the command fails. -/
theorem run_publishJobEvent (handler : Except JobError ProcessorResult)
    (faults : ℕ → Option JobError) (event : JobEvent) (calls : ℕ) (issued : List Call) :
    Program.run (world handler faults) (publishJobEvent event) calls issued =
      ⟨.ok (), calls + 1,
        issued ++ [.publish (publication event).1 (publication event).2]⟩ := by
  rw [publishJobEvent, Program.run_handle, Program.run_perform]
  cases hfault : faults calls <;> simp [world, world.reply, hfault]

/-- Counting issues its command and goes on, whether or not the command fails. -/
theorem run_incrementCounter (handler : Except JobError ProcessorResult)
    (faults : ℕ → Option JobError) (name : CounterName) (amount calls : ℕ)
    (issued : List Call) :
    Program.run (world handler faults) (incrementCounter name amount) calls issued =
      ⟨.ok (), calls + 1, issued ++ [.incrby (counterPrefix ++ name.text) amount]⟩ := by
  rw [incrementCounter, Program.run_handle, Program.run_perform]
  cases hfault : faults calls <;> simp [world, world.reply, hfault]

/-- How the retry policy passes on the end of the handler. -/
def policyOutcome : Except JobError ProcessorResult → Except JobError ProcessorResult
  | .ok result => .ok result
  | .error error => .error error.marked

theorem run_runJobWithRetryPolicy (handler : Except JobError ProcessorResult)
    (faults : ℕ → Option JobError) (calls : ℕ) (issued : List Call) :
    Program.run (world handler faults) runJobWithRetryPolicy calls issued =
      ⟨policyOutcome handler, calls + 1, issued⟩ := by
  rw [runJobWithRetryPolicy, Program.run_handle, Program.run_perform]
  cases handler <;> rfl

/-- The publish of an event. -/
def publishOf (event : JobEvent) : Call := .publish (publication event).1 (publication event).2

/-- The terminal publish and the counted outcome that belong to an end of the job. -/
def outcomeCalls (job : Job) : Except JobError ProcessorResult → List Call
  | .ok result =>
    [publishOf (completedEvent job result),
      .incrby (counterPrefix ++ CounterName.jobsCompletedTotal.text) 1]
  | .error error =>
    [publishOf (failedEvent job error.message),
      .incrby (counterPrefix ++ CounterName.jobsFailedTotal.text) 1]

/-- What the processor issues after its start, for the end of its handler. -/
def announced (job : Job) : Except JobError ProcessorResult → List Call
  | .ok result => outcomeCalls job (.ok result)
  | .error error => if announcesFailure job error then outcomeCalls job (.error error) else []

/-- The processor ends as the policy passes on the end of the handler, and issues its start and
what it announces, whatever becomes of these calls. -/
theorem processJob_ends (job : Job) (handler : Except JobError ProcessorResult)
    (faults : ℕ → Option JobError) (calls : ℕ) :
    (Program.run (world handler faults) (processJob job) calls []).outcome =
        policyOutcome handler ∧
      (Program.run (world handler faults) (processJob job) calls []).state =
        publishOf (startedEvent job) :: announced job (policyOutcome handler) := by
  rw [processJob, Program.run_bind, run_publishJobEvent, Program.Ended.andThen_ok,
    Program.run_handle, Program.run_bind, run_runJobWithRetryPolicy]
  cases handler with
  | ok result =>
    simp only [policyOutcome, Program.Ended.andThen_ok, Program.run_bind, run_publishJobEvent,
      run_incrementCounter, Program.run_pure, Program.Ended.handle_ok]
    exact ⟨trivial, rfl⟩
  | error error =>
    simp only [policyOutcome, Program.Ended.andThen_error, Program.Ended.handle_error]
    by_cases hfinal : announcesFailure job error.marked = true
    · rw [if_pos hfinal, announced, if_pos hfinal]
      simp only [Program.run_bind, run_publishJobEvent, run_incrementCounter,
        Program.Ended.andThen_ok, Program.run_throw]
      exact ⟨trivial, rfl⟩
    · rw [if_neg hfinal, announced, if_neg hfinal]
      simp only [Program.run_throw]
      exact ⟨trivial, rfl⟩

/-- The arithmetic of the processor is that of the queue: a failure is announced when the queue does
not retry the attempt. -/
theorem announcesFailure_eq (job : Job) (attempt : Attempt) {error : JobError}
    (houtcome : attempt.outcome = .error error) :
    announcesFailure { job with attemptsMade := attempt.attemptsMade } error =
      !retries job attempt := by
  have hcompare : decide (job.allowedAttempts ≤ attempt.attemptsMade + 1) =
      !decide (attempt.attemptsMade + 1 < job.allowedAttempts) := by
    rw [Bool.eq_iff_iff]
    simp
  rw [retries, houtcome]
  show (error.isUnrecoverable || decide (job.allowedAttempts ≤ attempt.attemptsMade + 1)) =
    !(!error.isUnrecoverable && decide (attempt.attemptsMade + 1 < job.allowedAttempts))
  rw [hcompare, Bool.not_and, Bool.not_not]

/-- An attempt ends as the policy passes on the end of the handler; it announces the start, and its
end unless the queue retries it. -/
theorem attemptOf_spec (job : Job) (handler : Except JobError ProcessorResult)
    (faults : ℕ → Option JobError) (attemptsMade calls : ℕ) {attempt : Attempt}
    (hattempt : (attemptOf job handler faults attemptsMade calls).1 = attempt) :
    attempt.attemptsMade = attemptsMade ∧ attempt.outcome = policyOutcome handler ∧
      attempt.issued = publishOf (startedEvent job) ::
        if retries job attempt then [] else outcomeCalls job attempt.outcome := by
  obtain ⟨houtcome, hissued⟩ :=
    processJob_ends { job with attemptsMade := attemptsMade } handler faults calls
  have hmade : attempt.attemptsMade = attemptsMade := by
    rw [← hattempt]
    rfl
  have houtcome' : attempt.outcome = policyOutcome handler := by
    rw [← hattempt]
    exact houtcome
  refine ⟨hmade, houtcome', ?_⟩
  have hissued' : attempt.issued = publishOf (startedEvent job) ::
      announced { job with attemptsMade := attemptsMade } (policyOutcome handler) := by
    rw [← hattempt]
    exact hissued
  rw [hissued', ← houtcome']
  congr 1
  cases hend : attempt.outcome with
  | ok result =>
    have hretries : retries job attempt = false := by rw [retries, hend]
    rw [hretries]
    rfl
  | error error =>
    rw [announced, ← hmade, announcesFailure_eq job attempt hend]
    cases retries job attempt <;> rfl

/-! ### The whole lifetime -/

theorem lifetime_of_retries {job : Job} {handlers : ℕ → Except JobError ProcessorResult}
    {faults : ℕ → Option JobError} {attemptsMade calls : ℕ}
    (h : retries job (attemptOf job (handlers attemptsMade) faults attemptsMade calls).1 = true) :
    lifetime job handlers faults attemptsMade calls =
      (attemptOf job (handlers attemptsMade) faults attemptsMade calls).1 ::
        lifetime job handlers faults (attemptsMade + 1)
          (attemptOf job (handlers attemptsMade) faults attemptsMade calls).2 := by
  rw [lifetime, dif_pos h]

theorem lifetime_of_not_retries {job : Job} {handlers : ℕ → Except JobError ProcessorResult}
    {faults : ℕ → Option JobError} {attemptsMade calls : ℕ}
    (h : ¬ retries job (attemptOf job (handlers attemptsMade) faults attemptsMade calls).1 = true) :
    lifetime job handlers faults attemptsMade calls =
      [(attemptOf job (handlers attemptsMade) faults attemptsMade calls).1] := by
  rw [lifetime, dif_neg h]

/-- The queue settles the job after an attempt that it does not retry, and retries all before. -/
theorem lifetime_spec (job : Job) (handlers : ℕ → Except JobError ProcessorResult)
    (faults : ℕ → Option JobError) (attemptsMade calls : ℕ) :
    ∃ earlier final, lifetime job handlers faults attemptsMade calls = earlier ++ [final] ∧
      (∀ attempt ∈ earlier, retries job attempt = true ∧
        attempt.issued = [publishOf (startedEvent job)]) ∧
      retries job final = false ∧
      final.issued = publishOf (startedEvent job) :: outcomeCalls job final.outcome := by
  induction attemptsMade, calls using lifetime.induct job handlers faults with
  | case1 attemptsMade calls attempt hretries ih =>
    obtain ⟨earlier, final, hlifetime, hearlier, hfinal⟩ := ih
    obtain ⟨-, -, hissued⟩ := attemptOf_spec job _ faults attemptsMade calls rfl
    refine ⟨attempt.1 :: earlier, final, ?_, ?_, hfinal⟩
    · rw [lifetime_of_retries hretries, hlifetime]
      rfl
    · intro other hother
      rcases List.mem_cons.mp hother with rfl | hrest
      · refine ⟨hretries, ?_⟩
        rw [hissued, if_pos hretries]
      · exact hearlier other hrest
  | case2 attemptsMade calls attempt hretries =>
    obtain ⟨-, -, hissued⟩ := attemptOf_spec job _ faults attemptsMade calls rfl
    refine ⟨[], attempt.1, ?_, fun _ hmem ↦ (List.not_mem_nil hmem).elim, ?_, ?_⟩
    · rw [lifetime_of_not_retries hretries]
      rfl
    · exact Bool.eq_false_iff.mpr hretries
    · rw [hissued, if_neg hretries]

/-- What the attempts of a lifetime issued, one after the other. -/
def issued (history : List Attempt) : List Call := history.flatMap Attempt.issued

/-- The publish of an event after which the job is not touched again. -/
def isTerminalPublish : Call → Bool
  | .publish _ payload => (JobEventSchema.safeParse payload).any fun event ↦ event.state.Terminal
  | _ => false

/-- The increment of a counter of ended jobs. -/
def isOutcomeCount : Call → Bool
  | .incrby key _ =>
    decide (key = counterPrefix ++ CounterName.jobsCompletedTotal.text ∨
      key = counterPrefix ++ CounterName.jobsFailedTotal.text)
  | _ => false

theorem isTerminalPublish_publishOf {event : JobEvent} (hvalid : event.Valid) :
    isTerminalPublish (publishOf event) = decide event.state.Terminal := by
  show (JobEventSchema.safeParse event.toJson).any _ = _
  rw [safeParse_toJson, if_pos hvalid]
  rfl

theorem startedEvent_valid (job : Job) : (startedEvent job).Valid := by
  show (0 : ℚ) ≤ 0 ∧ (0 : ℚ) ≤ 100
  decide

theorem completedEvent_valid (job : Job) (result : ProcessorResult) :
    (completedEvent job result).Valid := by
  show (0 : ℚ) ≤ 100 ∧ (100 : ℚ) ≤ 100
  decide

theorem failedEvent_valid (job : Job) (message : String) : (failedEvent job message).Valid := by
  show (0 : ℚ) ≤ 0 ∧ (0 : ℚ) ≤ 100
  decide

/-- The event that announces an end of the job. -/
def outcomeEvent (job : Job) : Except JobError ProcessorResult → JobEvent
  | .ok result => completedEvent job result
  | .error error => failedEvent job error.message

/-- The counter of an end of the job. -/
def outcomeCounter : Except JobError ProcessorResult → CounterName
  | .ok _ => .jobsCompletedTotal
  | .error _ => .jobsFailedTotal

theorem filter_started (job : Job) :
    [publishOf (startedEvent job)].filter isTerminalPublish = [] ∧
      [publishOf (startedEvent job)].filter isOutcomeCount = [] := by
  have hstarted : isTerminalPublish (publishOf (startedEvent job)) = false := by
    rw [isTerminalPublish_publishOf (startedEvent_valid job)]
    rfl
  constructor
  · rw [List.filter_cons_of_neg (by rw [hstarted]; exact Bool.false_ne_true), List.filter_nil]
  · rfl

theorem filter_outcomeCalls (job : Job) (outcome : Except JobError ProcessorResult) :
    (outcomeCalls job outcome).filter isTerminalPublish = [publishOf (outcomeEvent job outcome)] ∧
      (outcomeCalls job outcome).filter isOutcomeCount =
        [.incrby (counterPrefix ++ (outcomeCounter outcome).text) 1] := by
  cases outcome with
  | ok result =>
    have hterminal : isTerminalPublish (publishOf (completedEvent job result)) = true := by
      rw [isTerminalPublish_publishOf (completedEvent_valid job result)]
      rfl
    constructor
    · rw [outcomeCalls, List.filter_cons_of_pos hterminal]
      rfl
    · rfl
  | error error =>
    have hterminal : isTerminalPublish (publishOf (failedEvent job error.message)) = true := by
      rw [isTerminalPublish_publishOf (failedEvent_valid job error.message)]
      rfl
    constructor
    · rw [outcomeCalls, List.filter_cons_of_pos hterminal]
      rfl
    · rfl

/-- Attempts that all issued the same calls issued none of a kind that these have none of. -/
theorem filter_issued_eq_nil {kind : Call → Bool} {earlier : List Attempt} {calls : List Call}
    (h : ∀ attempt ∈ earlier, attempt.issued = calls) (hcalls : calls.filter kind = []) :
    (issued earlier).filter kind = [] := by
  rw [List.filter_eq_nil_iff]
  intro call hcall
  obtain ⟨attempt, hattempt, hissued⟩ := List.mem_flatMap.mp hcall
  rw [h attempt hattempt] at hissued
  exact List.filter_eq_nil_iff.mp hcalls call hissued

/-- Attempts that announced only their start issued no terminal event and counted nothing. -/
theorem filter_issued_earlier {job : Job} {earlier : List Attempt}
    (h : ∀ attempt ∈ earlier, attempt.issued = [publishOf (startedEvent job)]) :
    (issued earlier).filter isTerminalPublish = [] ∧
      (issued earlier).filter isOutcomeCount = [] :=
  ⟨filter_issued_eq_nil h (filter_started job).1, filter_issued_eq_nil h (filter_started job).2⟩

/-- The decision of the queue depends on how often the job was tried and how the attempt ended. -/
theorem retries_congr (job : Job) {attempt other : Attempt}
    (hmade : attempt.attemptsMade = other.attemptsMade)
    (houtcome : attempt.outcome = other.outcome) :
    retries job attempt = retries job other := by
  rw [retries, retries, houtcome, hmade]

/-- How the attempts end does not depend on their best-effort calls. -/
theorem outcomes_lifetime (job : Job) (handlers : ℕ → Except JobError ProcessorResult)
    (faults faults' : ℕ → Option JobError) (attemptsMade calls calls' : ℕ) :
    (lifetime job handlers faults attemptsMade calls).map Attempt.outcome =
      (lifetime job handlers faults' attemptsMade calls').map Attempt.outcome := by
  induction attemptsMade, calls using lifetime.induct job handlers faults generalizing calls' with
  | case1 attemptsMade calls attempt hretries ih =>
    obtain ⟨hmade, houtcome, -⟩ := attemptOf_spec job _ faults attemptsMade calls rfl
    obtain ⟨hmade', houtcome', -⟩ := attemptOf_spec job (handlers attemptsMade) faults'
      attemptsMade calls' rfl
    have hretries' := (retries_congr job (hmade.trans hmade'.symm)
      (houtcome.trans houtcome'.symm)).symm.trans hretries
    rw [lifetime_of_retries hretries, lifetime_of_retries hretries', List.map_cons, List.map_cons,
      houtcome, houtcome', ih]
  | case2 attemptsMade calls attempt hretries =>
    obtain ⟨hmade, houtcome, -⟩ := attemptOf_spec job _ faults attemptsMade calls rfl
    obtain ⟨hmade', houtcome', -⟩ := attemptOf_spec job (handlers attemptsMade) faults'
      attemptsMade calls' rfl
    have hretries' : ¬ retries job (attemptOf job (handlers attemptsMade) faults' attemptsMade
        calls').1 = true := by
      rw [← retries_congr job (hmade.trans hmade'.symm) (houtcome.trans houtcome'.symm)]
      exact hretries
    rw [lifetime_of_not_retries hretries, lifetime_of_not_retries hretries', List.map_singleton,
      List.map_singleton, houtcome, houtcome']

/-- Exactly one outcome per job. For every job, every way its handler ends on each attempt and every
pattern of failing publishes and increments: the queue settles the job after a last attempt that it
does not retry; over all attempts one terminal event is published, `completed` when the last attempt
returned and `failed` when it threw, and one outcome is counted, in the counter that goes with it;
an attempt that is retried announces no end; and the attempts end as they do when no publish and no
increment fails. -/
theorem one_outcome (job : Job) (handlers : ℕ → Except JobError ProcessorResult)
    (faults : ℕ → Option JobError) :
    let history := lifetime job handlers faults 0 0
    (∃ earlier final, history = earlier ++ [final] ∧ retries job final = false ∧
      (∀ attempt ∈ earlier, retries job attempt = true) ∧
      (issued history).filter isTerminalPublish = [publishOf (outcomeEvent job final.outcome)] ∧
      (issued history).filter isOutcomeCount =
        [.incrby (counterPrefix ++ (outcomeCounter final.outcome).text) 1]) ∧
    (∀ attempt ∈ history, retries job attempt = true →
      attempt.issued.filter isTerminalPublish = []) ∧
    history.map Attempt.outcome =
      (lifetime job handlers (fun _ ↦ none) 0 0).map Attempt.outcome := by
  obtain ⟨earlier, final, hhistory, hearlier, hretries, hfinal⟩ :=
    lifetime_spec job handlers faults 0 0
  have hstarted : ∀ attempt ∈ earlier, attempt.issued = [publishOf (startedEvent job)] :=
    fun attempt hattempt ↦ (hearlier attempt hattempt).2
  have hissued : issued (earlier ++ [final]) = issued earlier ++
      ([publishOf (startedEvent job)] ++ outcomeCalls job final.outcome) := by
    rw [issued, List.flatMap_append, List.flatMap_singleton, hfinal]
    rfl
  refine ⟨⟨earlier, final, hhistory, hretries, fun attempt hattempt ↦
    (hearlier attempt hattempt).1, ?_, ?_⟩, ?_, outcomes_lifetime job handlers _ _ 0 0 0⟩
  · rw [hhistory, hissued, List.filter_append, List.filter_append,
      (filter_issued_earlier hstarted).1, (filter_started job).1,
      (filter_outcomeCalls job final.outcome).1]
    rfl
  · rw [hhistory, hissued, List.filter_append, List.filter_append,
      (filter_issued_earlier hstarted).2, (filter_started job).2,
      (filter_outcomeCalls job final.outcome).2]
    rfl
  · intro attempt hattempt hretried
    rw [hhistory, List.mem_append, List.mem_singleton] at hattempt
    rcases hattempt with hbefore | rfl
    · rw [hstarted attempt hbefore]
      exact (filter_started job).1
    · rw [hretries] at hretried
      cases hretried

end FileForge.Jobs.Worker
