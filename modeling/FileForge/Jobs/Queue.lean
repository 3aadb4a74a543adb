import FileForge.Shared.Contract

/-!
# What the queue keeps of a job

The part of a BullMQ job that the code reads: the fields of a `Job` object, the state that
`getState` asks the queue for, and the decision to retry a failed attempt. A `Job` object keeps the
field values with which it was loaded, while the state is asked for anew (`Record`).
-/

set_option autoImplicit false
set_option relaxedAutoImplicit false

namespace FileForge.Jobs.Queue

open Foundation.JsonValue

/-- The answers of `job.getState()`. -/
inductive QueueState
  | waiting
  | waitingChildren
  | prioritized
  | delayed
  | active
  | completed
  | failed
  | unknown
  deriving DecidableEq, Repr

/-- A `Job` object: its id, the operation of its data, and the fields that change as it runs. -/
structure Job where
  id : String
  operation : String
  /-- `opts.attempts`. -/
  attempts : Option ℕ := none
  attemptsMade : ℕ := 0
  progress : Json := .number 0
  returnvalue : Json := .null
  failedReason : Option String := none

/-- `job.opts.attempts ?? 1`. -/
def Job.allowedAttempts (job : Job) : ℕ := job.attempts.getD 1

/-- A job as the queue holds it. -/
structure Record where
  job : Job
  state : QueueState := .waiting

/-- How a job has ended for the queue. -/
inductive Outcome
  | completed (returnvalue : Json)
  | failed (failedReason : String)

/-- The queue settles a job: the state and its result or reason in one step. -/
def Record.settle (record : Record) : Outcome → Record
  | .completed returnvalue =>
    { job := { record.job with returnvalue := returnvalue }, state := .completed }
  | .failed failedReason =>
    { job := { record.job with failedReason := some failedReason }, state := .failed }

end FileForge.Jobs.Queue
