import FileForge.Foundation.Interaction
import FileForge.Jobs.EventStream

/-!
# Asking after a job

`GET /jobs/:id` of `src/jobs/routes.ts` and the opening of `GET /jobs/:id/events` of
`src/jobs/sse.ts`, as programs over the calls they make on the queue. Both load the job with
`getJob` and ask for its state with `getState`, which is a call of its own; the second subscribes to
the job's channel in between. What they answer combines the fields that were loaded with the state
that was answered (`statusOf`, `EventStream.snapshot`).
-/

set_option autoImplicit false
set_option relaxedAutoImplicit false

namespace FileForge.Jobs.Routes

open Foundation.Interaction Foundation.JsonValue Shared.Contract EventStream Queue

/-! ### The public vocabulary -/

/-- The states of the queue as `getState` names them. -/
def stateText : QueueState → String
  | .waiting => "waiting"
  | .waitingChildren => "waiting-children"
  | .prioritized => "prioritized"
  | .delayed => "delayed"
  | .active => "active"
  | .completed => "completed"
  | .failed => "failed"
  | .unknown => "unknown"

/-- `publicState`: maps the queue's states onto a small, stable public vocabulary. -/
def publicState (state : String) : String :=
  match state with
  | "completed" => "completed"
  | "failed" => "failed"
  | "active" => "processing"
  | "delayed" => "retrying"
  | "waiting" | "waiting-children" | "prioritized" => "queued"
  | _ => state

/-- A state after which the queue does not touch the job again. -/
def Settled (state : QueueState) : Prop := state = .completed ∨ state = .failed

instance : DecidablePred Settled := fun state ↦
  inferInstanceAs (Decidable (state = .completed ∨ state = .failed))

/-- A settled state keeps its own name. -/
theorem eq_of_publicState_eq {state other : QueueState} (hsettled : Settled state)
    (h : publicState (stateText other) = publicState (stateText state)) : other = state := by
  rcases hsettled with rfl | rfl
  · cases other <;> first | rfl | exact absurd h (by decide)
  · cases other <;> first | rfl | exact absurd h (by decide)

/-- The public vocabulary has every state of the queue but `unknown`. -/
theorem accepts_publicState {state : QueueState} (h : state ≠ .unknown) :
    JobStateSchema.accepts (publicState (stateText state)) = true := by
  cases state <;> first | rfl | exact absurd rfl h

theorem publicState_unknown_ne {state : QueueState} (h : state ≠ .unknown) :
    publicState (stateText .unknown) ≠ publicState (stateText state) := by
  cases state <;> first | decide | exact absurd rfl h

/-! ### The two handlers -/

/-- A `Job` object with the file that its data names. -/
structure LoadedJob where
  job : Job
  fileId : String

/-- The body of `GET /jobs/:id`. -/
def statusOf (loaded : LoadedJob) (state : QueueState) : JobStatus where
  id := loaded.job.id
  state := publicState (stateText state)
  progress := loaded.job.progress.asNumber.getD 0
  operation := loaded.job.operation
  fileId := loaded.fileId
  attempts := loaded.job.attemptsMade
  result := if state = .completed then some loaded.job.returnvalue else none
  error := if state = .failed then loaded.job.failedReason else none

/-- The calls on the job that the request names. -/
inductive Call
  | getJob
  /-- `subscribeToJob` -/
  | subscribe
  | getState
  deriving DecidableEq, Repr

abbrev Reply : Call → Type
  | .getJob => Option LoadedJob
  | .subscribe => Unit
  | .getState => QueueState

abbrev Request := Program Call Reply Unit

def getJob : Request (Option LoadedJob) := Program.perform Call.getJob

def subscribe : Request Unit := Program.perform Call.subscribe

def getState : Request QueueState := Program.perform Call.getState

/-- `GET /jobs/:id`: the body of a `200`, and `none` for a `404`. -/
def getJobStatus : Request (Option JobStatus) := do
  match ← getJob with
  | none => return none
  | some loaded =>
    let state ← getState
    return some (statusOf loaded state)

/-- `GET /jobs/:id/events` up to its opening snapshot. -/
def openStream (jobId : String) : Request Stream := do
  match ← getJob with
  | none => return (Stream.onJob { jobId := jobId } none).1
  | some loaded =>
    subscribe
    let state ← getState
    return (((Stream.onJob { jobId := jobId } (some loaded.job)).1.onSubscribed.onState
      state).writeSnapshot).1

/-- What the stream has written when its opening snapshot is out. -/
theorem output_opened (jobId : String) (job : Job) (state : QueueState) :
    (((Stream.onJob { jobId := jobId } (some job)).1.onSubscribed.onState
      state).writeSnapshot).1.output = [.headers, .event (snapshot job state)] := by
  cases state <;> rfl

/-- An opening snapshot of a job that has not settled. -/
theorem snapshot_of_not_settled {state : QueueState} (job : Job) (h : ¬ Settled state) :
    snapshot job state =
      { jobId := job.id, state := if state = .active then .processing else .queued
        progress := job.progress.asNumber.getD 0, operation := some job.operation } := by
  cases state <;> first | rfl | exact absurd (Or.inl rfl) h | exact absurd (Or.inr rfl) h

theorem snapshot_completed_iff (job : Job) (state : QueueState) :
    (snapshot job state).state = .completed ↔ state = .completed := by
  cases state <;> simp [snapshot]

theorem snapshot_failed_iff (job : Job) (state : QueueState) :
    (snapshot job state).state = .failed ↔ state = .failed := by
  cases state <;> simp [snapshot]

end FileForge.Jobs.Routes
