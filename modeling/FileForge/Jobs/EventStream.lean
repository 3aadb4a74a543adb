import FileForge.Foundation.PubSub
import FileForge.Jobs.Events
import FileForge.Jobs.Queue
import Mathlib.Data.List.TakeWhile

/-!
# One event stream

The handler of `GET /jobs/:id/events` in `src/jobs/sse.ts`, for one connection, as what it does at
each point where it is resumed: when `getJob` answers (`onJob`), when the subscription is there
(`onSubscribed`), when `getState` answers and the snapshot is written (`onState`, `writeSnapshot`),
when the listener gets a message (`onMessage`), and when the server has confirmed `UNSUBSCRIBE`
(`onUnsubscribed`). Each gives the stream afterwards and the commands it sends on the subscriber
connection.

`cleanup` runs once. It ends the response at once while the handler has no unsubscribe function yet,
and otherwise first removes the listener and waits for the server. The handler does not look at
`closed` between its awaits.
-/

set_option autoImplicit false
set_option relaxedAutoImplicit false

namespace FileForge.Jobs.EventStream

open Foundation.JsonValue Foundation.PubSub Shared.Contract Events Queue

/-- What is written to the response. -/
inductive Output
  | notFound
  | headers
  | event (event : JobEvent)
  | ended

def Output.isEnded : Output → Bool
  | .ended => true
  | _ => false

/-- Where the handler stands: what it waits for, and the `Job` object it has loaded. -/
inductive Handler
  /-- `queue.getJob` has been called. -/
  | loading
  /-- `subscribeToJob` has been called. -/
  | subscribing (job : Job)
  /-- `job.getState` has been called. -/
  | reading (job : Job)
  /-- The state has been answered, and the snapshot is to be written. -/
  | answered (job : Job) (state : QueueState)
  | done

structure Stream where
  jobId : String
  handler : Handler := .loading
  /-- `closed`: cleanup has begun. -/
  closed : Bool := false
  /-- `unsubscribe` is not `null`. -/
  hasUnsubscribe : Bool := false
  /-- The listener is registered on the subscriber. -/
  listening : Bool := false
  /-- The keep-alive and the connection timeout are armed. -/
  timers : Bool := false
  output : List Output := []

/-- Write one item to the response. -/
def Stream.write (stream : Stream) (item : Output) : Stream :=
  { stream with output := stream.output ++ [item] }

/-- `cleanup`, up to its first wait. -/
def Stream.cleanup (stream : Stream) : Stream × List (Command String) :=
  if stream.closed then (stream, [])
  else if stream.hasUnsubscribe then
    ({ stream with closed := true, timers := false, listening := false },
      [.unsubscribe (channelFor stream.jobId)])
  else (({ stream with closed := true, timers := false } : Stream).write .ended, [])

/-- `getJob` has answered. -/
def Stream.onJob (stream : Stream) : Option Job → Stream × List (Command String)
  | none => (({ stream with handler := .done } : Stream).write .notFound, [])
  | some job =>
    (({ stream with handler := .subscribing job, timers := true, listening := true } : Stream).write
      .headers, [.subscribe (channelFor stream.jobId)])

/-- `subscribeToJob` has returned. -/
def Stream.onSubscribed (stream : Stream) : Stream :=
  match stream.handler with
  | .subscribing job => { stream with handler := .reading job, hasUnsubscribe := true }
  | _ => stream

/-- `getState` has answered. -/
def Stream.onState (stream : Stream) (state : QueueState) : Stream :=
  match stream.handler with
  | .reading job => { stream with handler := .answered job state }
  | _ => stream

/-- The opening snapshot. The job's fields are those it was loaded with. -/
def snapshot (job : Job) : QueueState → JobEvent
  | .completed =>
    { jobId := job.id, state := .completed, progress := 100, operation := some job.operation
      result := some job.returnvalue }
  | .failed =>
    { jobId := job.id, state := .failed, progress := 0, operation := some job.operation
      error := job.failedReason }
  | state =>
    { jobId := job.id, state := if state = .active then .processing else .queued
      progress := job.progress.asNumber.getD 0, operation := some job.operation }

/-- The last write of the handler. -/
def Stream.finish (stream : Stream) (event : JobEvent) : Stream :=
  ({ stream with handler := .done } : Stream).write (.event event)

/-- The handler goes on after `getState`. -/
def Stream.writeSnapshot (stream : Stream) : Stream × List (Command String) :=
  match stream.handler with
  | .answered job state =>
    if state = .completed ∨ state = .failed then (stream.finish (snapshot job state)).cleanup
    else (stream.finish (snapshot job state), [])
  | _ => (stream, [])

/-- The listener gets an event of its job. -/
def Stream.onEvent (stream : Stream) (event : JobEvent) : Stream × List (Command String) :=
  if stream.closed then (stream, [])
  else if event.state = .completed ∨ event.state = .failed then
    (stream.write (.event event)).cleanup
  else (stream.write (.event event), [])

/-- The subscriber emits a message. -/
def Stream.onMessage (stream : Stream) (channel : String) (payload : Json) :
    Stream × List (Command String) :=
  if stream.listening then
    match Events.handler stream.jobId channel (some payload) with
    | some event => stream.onEvent event
    | none => (stream, [])
  else (stream, [])

/-- The server has confirmed `UNSUBSCRIBE`: cleanup goes on. -/
def Stream.onUnsubscribed (stream : Stream) : Stream := stream.write .ended

/-! ### What each function leaves alone -/

@[simp] theorem Stream.write_handler (stream : Stream) (item : Output) :
    (stream.write item).handler = stream.handler := rfl

@[simp] theorem Stream.write_jobId (stream : Stream) (item : Output) :
    (stream.write item).jobId = stream.jobId := rfl

@[simp] theorem Stream.cleanup_handler (stream : Stream) :
    stream.cleanup.1.handler = stream.handler := by
  rw [Stream.cleanup]
  split_ifs <;> rfl

@[simp] theorem Stream.cleanup_jobId (stream : Stream) :
    stream.cleanup.1.jobId = stream.jobId := by
  rw [Stream.cleanup]
  split_ifs <;> rfl

theorem Stream.closed_cleanup (stream : Stream) : stream.cleanup.1.closed = true := by
  rw [Stream.cleanup]
  split_ifs with hclosed
  · exact hclosed
  · rfl
  · rfl

/-- Once the subscription is there, the handler waits for it no more. -/
theorem Stream.onSubscribed_handler (stream : Stream) :
    (∀ loaded, stream.onSubscribed.handler ≠ .subscribing loaded) ∧
      (stream.handler ≠ .loading → stream.onSubscribed.handler ≠ .loading) := by
  unfold Stream.onSubscribed
  split
  · exact ⟨fun _ ↦ nofun, fun _ ↦ nofun⟩
  · rename_i hother
    exact ⟨fun loaded hloaded ↦ hother loaded hloaded, fun h ↦ h⟩

theorem Stream.onSubscribed_rest (stream : Stream) :
    stream.onSubscribed.closed = stream.closed ∧
      stream.onSubscribed.listening = stream.listening ∧
      stream.onSubscribed.output = stream.output := by
  unfold Stream.onSubscribed
  split <;> exact ⟨rfl, rfl, rfl⟩

theorem Stream.onState_of_reading {stream : Stream} {job : Job} (h : stream.handler = .reading job)
    (state : QueueState) :
    stream.onState state = { stream with handler := .answered job state } := by
  rw [Stream.onState, h]

/-- A listener passes on the event that it hears. -/
theorem Stream.onMessage_of_heard {stream : Stream} (h : stream.listening = true) {channel : String}
    {payload : Json} {event : JobEvent}
    (hevent : Events.handler stream.jobId channel (some payload) = some event) :
    stream.onMessage channel payload = stream.onEvent event := by
  rw [Stream.onMessage, if_pos h, hevent]

theorem Stream.onMessage_of_unheard {stream : Stream} {channel : String} {payload : Json}
    (hnone : Events.handler stream.jobId channel (some payload) = none) :
    stream.onMessage channel payload = (stream, []) := by
  rw [Stream.onMessage, hnone]
  split_ifs <;> rfl

theorem Stream.onEvent_handler (stream : Stream) (event : JobEvent) :
    (stream.onEvent event).1.handler = stream.handler ∧
      (stream.onEvent event).1.jobId = stream.jobId := by
  rw [Stream.onEvent]
  split_ifs <;> simp

/-- The listener does not touch the handler. -/
theorem Stream.onMessage_handler (stream : Stream) (channel : String) (payload : Json) :
    (stream.onMessage channel payload).1.handler = stream.handler ∧
      (stream.onMessage channel payload).1.jobId = stream.jobId := by
  rw [Stream.onMessage]
  split_ifs
  · split
    · exact stream.onEvent_handler _
    · exact ⟨rfl, rfl⟩
  · exact ⟨rfl, rfl⟩

theorem Stream.writeSnapshot_eq {stream : Stream} {job : Job} {state : QueueState}
    (h : stream.handler = .answered job state) :
    stream.writeSnapshot =
      if state = .completed ∨ state = .failed then (stream.finish (snapshot job state)).cleanup
      else (stream.finish (snapshot job state), []) := by
  rw [Stream.writeSnapshot, h]

/-- After the snapshot the handler is done. -/
theorem Stream.writeSnapshot_handler {stream : Stream} {job : Job} {state : QueueState}
    (h : stream.handler = .answered job state) :
    stream.writeSnapshot.1.handler = .done ∧ stream.writeSnapshot.1.jobId = stream.jobId := by
  rw [Stream.writeSnapshot_eq h]
  split_ifs
  · rw [Stream.cleanup_handler, Stream.cleanup_jobId]
    exact ⟨rfl, rfl⟩
  · exact ⟨rfl, rfl⟩

/-! ### What has reached the client -/

/-- What was written before the response was ended. -/
def Stream.delivered (stream : Stream) : List Output :=
  stream.output.takeWhile fun item ↦ !item.isEnded

/-- A terminal event has been written to the response before its end. -/
def Stream.TerminalWritten (stream : Stream) : Prop :=
  ∃ event, .event event ∈ stream.delivered ∧ event.state.Terminal

/-- Nothing that is written later takes away a terminal event. -/
theorem Stream.TerminalWritten.mono {stream after : Stream} (h : stream.TerminalWritten)
    (houtput : stream.output <+: after.output) : after.TerminalWritten := by
  obtain ⟨event, hevent, hterminal⟩ := h
  refine ⟨event, ?_, hterminal⟩
  obtain ⟨more, hmore⟩ := houtput
  rw [Stream.delivered, ← hmore, List.takeWhile_append]
  split_ifs with hall
  · exact List.mem_append_left _ ((List.takeWhile_prefix _).subset hevent)
  · exact hevent

/-- Nothing terminal among what is written, nothing terminal among what is delivered. -/
theorem Stream.not_terminalWritten {stream : Stream}
    (h : ∀ event, .event event ∈ stream.output → ¬ event.state.Terminal) :
    ¬ stream.TerminalWritten := by
  rintro ⟨event, hevent, hterminal⟩
  exact h event ((List.takeWhile_prefix _).subset hevent) hterminal

/-- A step that writes no terminal event to an open response. -/
theorem Stream.TerminalWritten.of_subset {stream after : Stream} (h : after.TerminalWritten)
    (hended : .ended ∉ stream.output)
    (hsubset : ∀ event : JobEvent, event.state.Terminal → .event event ∈ after.output →
      .event event ∈ stream.output) : stream.TerminalWritten := by
  obtain ⟨event, hevent, hterminal⟩ := h
  refine ⟨event, ?_, hterminal⟩
  have hnone : ∀ item ∈ stream.output, (!item.isEnded) = true := by
    intro item hitem
    cases item with
    | ended => exact absurd hitem hended
    | _ => rfl
  rw [Stream.delivered, List.takeWhile_eq_self_iff.mpr hnone]
  exact hsubset event hterminal ((List.takeWhile_prefix _).subset hevent)

/-- A terminal event written to a response that has not been ended. -/
theorem Stream.terminalWritten_write {stream : Stream}
    (hopen : .ended ∉ stream.output) {event : JobEvent} (hterminal : event.state.Terminal) :
    (stream.write (.event event)).TerminalWritten := by
  have hnone : ∀ item ∈ stream.output ++ [Output.event event], (!item.isEnded) = true := by
    intro item hitem
    cases item with
    | ended => simp [hopen] at hitem
    | _ => rfl
  refine ⟨event, ?_, hterminal⟩
  show Output.event event ∈ (stream.output ++ [Output.event event]).takeWhile
    fun item ↦ !item.isEnded
  rw [List.takeWhile_eq_self_iff.mpr hnone]
  exact List.mem_append_right _ (List.mem_singleton_self _)

/-- Cleanup only adds to what was written. -/
theorem Stream.output_prefix_cleanup (stream : Stream) :
    stream.output <+: stream.cleanup.1.output := by
  rw [Stream.cleanup]
  split_ifs
  · exact List.prefix_refl _
  · exact List.prefix_refl _
  · exact List.prefix_append _ _

theorem Stream.output_prefix_write (stream : Stream) (item : Output) :
    stream.output <+: (stream.write item).output := List.prefix_append _ _

theorem Stream.output_prefix_finish (stream : Stream) (event : JobEvent) :
    stream.output <+: (stream.finish event).output := List.prefix_append _ _

theorem Stream.output_prefix_onMessage (stream : Stream) (channel : String) (payload : Json) :
    stream.output <+: (stream.onMessage channel payload).1.output := by
  rw [Stream.onMessage]
  split_ifs
  · split
    · rw [Stream.onEvent]
      split_ifs
      · exact List.prefix_refl _
      · exact (stream.output_prefix_write _).trans (Stream.output_prefix_cleanup _)
      · exact stream.output_prefix_write _
    · exact List.prefix_refl _
  · exact List.prefix_refl _

theorem Stream.output_prefix_writeSnapshot (stream : Stream) :
    stream.output <+: stream.writeSnapshot.1.output := by
  rw [Stream.writeSnapshot]
  split
  · split_ifs
    · exact (stream.output_prefix_finish _).trans (Stream.output_prefix_cleanup _)
    · exact stream.output_prefix_finish _
  · exact List.prefix_refl _

/-- The event that the listener of a job makes of an incoming item. -/
def heardEvent (jobId : String) : Incoming String Json Unit → Option JobEvent
  | .reply _ _ => none
  | .message channel payload => Events.handler jobId channel (some payload)

/-- The item carries a terminal event of the job. -/
def CarriesTerminal (jobId : String) (item : Incoming String Json Unit) : Prop :=
  ∃ event, heardEvent jobId item = some event ∧ event.state.Terminal

/-- A listener on an open stream writes a terminal event that it hears. -/
theorem Stream.terminalWritten_onMessage {stream : Stream} (hlistening : stream.listening)
    (hclosed : stream.closed = false) (hended : .ended ∉ stream.output) {channel : String}
    {payload : Json} (hterminal : CarriesTerminal stream.jobId (.message channel payload)) :
    (stream.onMessage channel payload).1.TerminalWritten := by
  obtain ⟨event, hevent, hstate⟩ := hterminal
  rw [Stream.onMessage_of_heard hlistening hevent]
  have hsettled : event.state = .completed ∨ event.state = .failed := hstate
  rw [Stream.onEvent, if_neg (by rw [hclosed]; exact Bool.false_ne_true), if_pos hsettled]
  exact (Stream.terminalWritten_write hended hstate).mono (Stream.output_prefix_cleanup _)

/-- A terminal event that the listener writes on an open stream came with the message. -/
theorem Stream.TerminalWritten.of_onMessage {stream : Stream} {channel : String} {payload : Json}
    (h : (stream.onMessage channel payload).1.TerminalWritten) (hended : .ended ∉ stream.output)
    (hclosed : stream.closed = false) :
    stream.TerminalWritten ∨ CarriesTerminal stream.jobId (.message channel payload) := by
  rw [Stream.onMessage] at h
  split_ifs at h with hlistening
  · split at h
    · rename_i event hevent
      by_cases hterminal : event.state.Terminal
      · exact Or.inr ⟨event, hevent, hterminal⟩
      · have hnot : ¬ (event.state = .completed ∨ event.state = .failed) := hterminal
        rw [Stream.onEvent, if_neg (by rw [hclosed]; exact Bool.false_ne_true), if_neg hnot] at h
        refine Or.inl (h.of_subset hended fun other hother hmem ↦ ?_)
        rcases List.mem_append.mp hmem with hold | hnew
        · exact hold
        · obtain rfl := Output.event.inj (List.mem_singleton.mp hnew)
          exact absurd hother hterminal
    · exact Or.inl h
  · exact Or.inl h

/-- A snapshot of a settled job on an open stream is terminal. -/
theorem Stream.terminalWritten_writeSnapshot {stream : Stream} {job : Job} {state : QueueState}
    (h : stream.handler = .answered job state) (hended : .ended ∉ stream.output)
    (hstate : state = .completed ∨ state = .failed) :
    stream.writeSnapshot.1.TerminalWritten := by
  have hterminal : (snapshot job state).state.Terminal := by
    rcases hstate with rfl | rfl
    · exact Or.inl rfl
    · exact Or.inr rfl
  rw [Stream.writeSnapshot_eq h, if_pos hstate]
  have hwritten : (stream.finish (snapshot job state)).TerminalWritten :=
    Stream.terminalWritten_write hended hterminal
  exact hwritten.mono (Stream.output_prefix_cleanup _)

/-- A terminal snapshot is one of a settled job. -/
theorem Stream.TerminalWritten.of_writeSnapshot {stream : Stream} {job : Job}
    {state : QueueState} (h : stream.writeSnapshot.1.TerminalWritten)
    (hhandler : stream.handler = .answered job state) (hended : .ended ∉ stream.output) :
    stream.TerminalWritten ∨ state = .completed ∨ state = .failed := by
  by_cases hstate : state = .completed ∨ state = .failed
  · exact Or.inr hstate
  · rw [Stream.writeSnapshot_eq hhandler, if_neg hstate] at h
    refine Or.inl (h.of_subset hended fun other hother hmem ↦ ?_)
    rcases List.mem_append.mp hmem with hold | hnew
    · exact hold
    · obtain rfl := Output.event.inj (List.mem_singleton.mp hnew)
      refine absurd hother ?_
      cases state <;> simp_all [snapshot, EventState.Terminal]

end FileForge.Jobs.EventStream
