import FileForge.Foundation.Execution
import FileForge.Jobs.EventStream
import FileForge.Jobs.Worker

/-!
# A job finishes while a client connects

One worker with the attempts of one job, the record the queue keeps of it, the subscriber
connection, and one client that connects to the event stream of the job and stays. The worker takes
the job up, reports progress, may hand it back for a retry, publishes the terminal event and
returns, upon which the queue settles the job. The route loads the job, subscribes, asks for the
state, and writes the opening snapshot. All steps interleave freely.

The outcome reaches the client by one of two ways: the terminal event is published while the client
is subscribed, or `getState` is answered after the job has settled. `terminalWritten_iff` says that
a run that has come to its end has written a terminal event exactly when it took one of them. A run
can miss both, since the worker publishes before the queue settles the job: the client subscribes
after the publication and asks before the settlement (`betweenPublishAndSettle`).
-/

set_option autoImplicit false
set_option relaxedAutoImplicit false

namespace FileForge.Jobs.OutcomeDelivery

open Foundation.JsonValue Foundation.PubSub Foundation.Execution Foundation.Execution.System
open Shared.Contract Errors Events Queue EventStream
open Worker (ProcessorResult progressEvent outcomeEvent)

/-! ### The system -/

/-- Where the worker stands with the job. -/
inductive WorkerStep
  | waiting
  | running
  /-- The handler has ended for good, and its end is to be published. -/
  | finishing (outcome : Except JobError ProcessorResult)
  /-- The end has been published, and the processor is to return it to the queue. -/
  | announced (outcome : Except JobError ProcessorResult)
  | settled

structure State where
  worker : WorkerStep
  record : Record
  connection : Connection String Json Unit
  stream : Stream

inductive Action
  /-- The worker takes up the job. -/
  | start
  /-- The handler updates the progress in the record. -/
  | updateProgress (progress : Json)
  /-- The worker publishes a `processing` event. -/
  | report (progress : ℚ)
  /-- An attempt fails and will be retried. -/
  | retry
  /-- The handler ends for good. -/
  | finish (outcome : Except JobError ProcessorResult)
  /-- The worker publishes the terminal event. -/
  | announce
  /-- The processor returns, and the queue settles the job. -/
  | settle
  /-- `getJob` is answered. -/
  | load
  /-- The server runs the oldest command of the subscriber. -/
  | serve
  /-- The subscriber reads what the server sent first. -/
  | read
  /-- `getState` is answered. -/
  | answer
  /-- The route goes on and writes the snapshot. -/
  | snapshot

/-- How the queue settles a job whose processor has ended. -/
def settlement : Except JobError ProcessorResult → Outcome
  | .ok result => .completed result.toJson
  | .error error => .failed error.message

/-- Send the commands of the stream. -/
def sendAll (connection : Connection String Json Unit) (commands : List (Command String)) :
    Connection String Json Unit :=
  commands.foldl (fun connection command ↦ connection.send () command) connection

/-- The stream when the subscriber has read an item. -/
def onRead (stream : Stream) : Incoming String Json Unit → Stream × List (Command String)
  | .reply _ (.subscribe _) => (stream.onSubscribed, [])
  | .reply _ (.unsubscribe _) => (stream.onUnsubscribed, [])
  | .message channel payload => stream.onMessage channel payload

/-- The worker publishes an event. -/
def publishing (state : State) (event : JobEvent) : Connection String Json Unit :=
  state.connection.publish (publication event).1 (publication event).2

/-- The stream and the commands of a resumed part of the route, put into the state. -/
def State.resume (state : State) (connection : Connection String Json Unit)
    (resumed : Stream × List (Command String)) : State :=
  { state with stream := resumed.1, connection := sendAll connection resumed.2 }

def step (state : State) : Action → Option State
  | .start =>
    match state.worker with
    | .waiting =>
      some { state with worker := .running, record := { state.record with state := .active } }
    | _ => none
  | .updateProgress progress =>
    match state.worker with
    | .running =>
      some { state with record :=
        { state.record with job := { state.record.job with progress := progress } } }
    | _ => none
  | .report progress =>
    match state.worker with
    | .waiting | .settled => none
    | _ =>
      some { state with connection := publishing state (progressEvent state.record.job progress) }
  | .retry =>
    match state.worker with
    | .running =>
      some { state with worker := .waiting, record := { state.record with state := .delayed } }
    | _ => none
  | .finish outcome =>
    match state.worker with
    | .running => some { state with worker := .finishing outcome }
    | _ => none
  | .announce =>
    match state.worker with
    | .finishing outcome =>
      some { state with
        worker := .announced outcome
        connection := publishing state (outcomeEvent state.record.job outcome) }
    | _ => none
  | .settle =>
    match state.worker with
    | .announced outcome =>
      some { state with worker := .settled, record := state.record.settle (settlement outcome) }
    | _ => none
  | .load =>
    match state.stream.handler with
    | .loading =>
      some (state.resume state.connection (state.stream.onJob (some state.record.job)))
    | _ => none
  | .serve =>
    state.connection.serve.map fun (_, connection) ↦ { state with connection := connection }
  | .read =>
    state.connection.read.map fun (item, connection) ↦
      state.resume connection (onRead state.stream item)
  | .answer =>
    match state.stream.handler with
    | .reading _ => some { state with stream := state.stream.onState state.record.state }
    | _ => none
  | .snapshot =>
    match state.stream.handler with
    | .answered _ _ => some (state.resume state.connection state.stream.writeSnapshot)
    | _ => none

/-- A job that waits in the queue, and a client that has just connected. -/
def system (job : Job) : System State Action where
  start :=
    { worker := .waiting, record := { job := job }, connection := .fresh
      stream := { jobId := job.id } }
  step := step

/-- Neither side has a step left to take, and nothing is on its way. -/
def Finished (state : State) : Prop := ∀ action, step state action = none

/-! ### The steps -/

/-- What a step can do, with the state in which it can be taken. -/
inductive Step (state : State) : Action → State → Prop
  | start (hworker : state.worker = .waiting) :
    Step state .start
      { state with worker := .running, record := { state.record with state := .active } }
  | updateProgress (hworker : state.worker = .running) (progress : Json) :
    Step state (.updateProgress progress) { state with record :=
      { state.record with job := { state.record.job with progress := progress } } }
  | report (hwaiting : state.worker ≠ .waiting) (hsettled : state.worker ≠ .settled)
      (progress : ℚ) :
    Step state (.report progress)
      { state with connection := publishing state (progressEvent state.record.job progress) }
  | retry (hworker : state.worker = .running) :
    Step state .retry
      { state with worker := .waiting, record := { state.record with state := .delayed } }
  | finish (hworker : state.worker = .running) (outcome : Except JobError ProcessorResult) :
    Step state (.finish outcome) { state with worker := .finishing outcome }
  | announce {outcome : Except JobError ProcessorResult}
      (hworker : state.worker = .finishing outcome) :
    Step state .announce { state with
      worker := .announced outcome
      connection := publishing state (outcomeEvent state.record.job outcome) }
  | settle {outcome : Except JobError ProcessorResult}
      (hworker : state.worker = .announced outcome) :
    Step state .settle
      { state with worker := .settled, record := state.record.settle (settlement outcome) }
  | load (hhandler : state.stream.handler = .loading) :
    Step state .load
      (state.resume state.connection (state.stream.onJob (some state.record.job)))
  | serve {served : Unit × Command String} {connection : Connection String Json Unit}
      (hserve : state.connection.serve = some (served, connection)) :
    Step state .serve { state with connection := connection }
  | read {item : Incoming String Json Unit} {connection : Connection String Json Unit}
      (hread : state.connection.read = some (item, connection)) :
    Step state .read (state.resume connection (onRead state.stream item))
  | answer {job : Job} (hhandler : state.stream.handler = .reading job) :
    Step state .answer { state with stream := state.stream.onState state.record.state }
  | snapshot {job : Job} {answered : QueueState}
      (hhandler : state.stream.handler = .answered job answered) :
    Step state .snapshot (state.resume state.connection state.stream.writeSnapshot)

/-- Every step of the system is one of these. -/
theorem step_cases {state after : State} {action : Action}
    (h : step state action = some after) : Step state action after := by
  cases action <;> simp only [step] at h
  case serve =>
    obtain ⟨⟨served, connection⟩, hserve, rfl⟩ := Option.map_eq_some_iff.mp h
    exact .serve hserve
  case read =>
    obtain ⟨⟨item, connection⟩, hread, rfl⟩ := Option.map_eq_some_iff.mp h
    exact .read hread
  case report progress =>
    split at h
    · cases h
    · cases h
    · rename_i hwaiting hsettled
      obtain rfl := Option.some.inj h
      exact .report hwaiting hsettled progress
  case start =>
    split at h
    · rename_i hguard
      obtain rfl := Option.some.inj h
      exact .start hguard
    · cases h
  case updateProgress progress =>
    split at h
    · rename_i hguard
      obtain rfl := Option.some.inj h
      exact .updateProgress hguard progress
    · cases h
  case retry =>
    split at h
    · rename_i hguard
      obtain rfl := Option.some.inj h
      exact .retry hguard
    · cases h
  case finish outcome =>
    split at h
    · rename_i hguard
      obtain rfl := Option.some.inj h
      exact .finish hguard outcome
    · cases h
  case announce =>
    split at h
    · rename_i hguard
      obtain rfl := Option.some.inj h
      exact .announce hguard
    · cases h
  case settle =>
    split at h
    · rename_i hguard
      obtain rfl := Option.some.inj h
      exact .settle hguard
    · cases h
  case load =>
    split at h
    · rename_i hguard
      obtain rfl := Option.some.inj h
      exact .load hguard
    · cases h
  case answer =>
    split at h
    · rename_i hguard
      obtain rfl := Option.some.inj h
      exact .answer hguard
    · cases h
  case snapshot =>
    split at h
    · rename_i hguard
      obtain rfl := Option.some.inj h
      exact .snapshot hguard
    · cases h

/-! ### The past of a run -/

/-- The `SUBSCRIBE` of the route ran before the worker published the terminal event. -/
def SubscribedInTime (actions : List Action) : Prop :=
  Precedes (· = .serve) (· = .announce) actions

/-- The job had settled before `getState` was answered. -/
def AskedInTime (actions : List Action) : Prop := Precedes (· = .settle) (· = .answer) actions

/-- What the state says of the actions taken: which of the four decisive steps have been made. -/
structure Tracked (job : Job) (actions : List Action) (state : State) : Prop where
  recordId : state.record.job.id = job.id
  streamId : state.stream.jobId = job.id
  announced : .announce ∈ actions ↔
    (∃ outcome, state.worker = .announced outcome) ∨ state.worker = .settled
  settled : .settle ∈ actions ↔ state.worker = .settled
  recordState : (state.record.state = .completed ∨ state.record.state = .failed) ↔
    state.worker = .settled
  answered : .answer ∈ actions ↔
    (∃ loaded answer, state.stream.handler = .answered loaded answer) ∨
      state.stream.handler = .done
  subscribed : channelFor job.id ∈ state.connection.channels → .serve ∈ actions

theorem tracked_start (job : Job) : Tracked job [] (system job).start where
  recordId := rfl
  streamId := rfl
  announced := by simp [system]
  settled := by simp [system]
  recordState := by simp [system]
  answered := by simp [system]
  subscribed := by simp [system, Connection.fresh]

@[simp] theorem sendAll_channels (connection : Connection String Json Unit)
    (commands : List (Command String)) :
    (sendAll connection commands).channels = connection.channels := by
  induction commands generalizing connection with
  | nil => rfl
  | cons command rest ih => exact ih (connection.send () command)

@[simp] theorem sendAll_inbound (connection : Connection String Json Unit)
    (commands : List (Command String)) :
    (sendAll connection commands).inbound = connection.inbound := by
  induction commands generalizing connection with
  | nil => rfl
  | cons command rest ih => exact ih (connection.send () command)

theorem onRead_jobId (stream : Stream) (item : Incoming String Json Unit) :
    (onRead stream item).1.jobId = stream.jobId := by
  cases item with
  | reply ticket command =>
    cases command with
    | subscribe channel =>
      show stream.onSubscribed.jobId = _
      unfold Stream.onSubscribed
      split <;> rfl
    | unsubscribe channel => rfl
  | message channel payload => exact (stream.onMessage_handler channel payload).2

/-- Reading moves the handler at most from the subscription to `getState`. -/
theorem onRead_handler (stream : Stream) (item : Incoming String Json Unit) :
    (onRead stream item).1.handler = stream.handler ∨
      ∃ loaded, stream.handler = .subscribing loaded ∧
        (onRead stream item).1.handler = .reading loaded := by
  cases item with
  | reply ticket command =>
    cases command with
    | subscribe channel =>
      show stream.onSubscribed.handler = _ ∨ ∃ loaded, _ ∧ stream.onSubscribed.handler = _
      unfold Stream.onSubscribed
      split
      · rename_i loaded hhandler
        exact Or.inr ⟨loaded, hhandler, rfl⟩
      · exact Or.inl rfl
    | unsubscribe channel => exact Or.inl rfl
  | message channel payload => exact Or.inl (stream.onMessage_handler channel payload).1

theorem tracked_step {job : Job} {actions : List Action} {state : State}
    (h : Tracked job actions state) {action : Action} {after : State}
    (hstep : Step state action after) : Tracked job (actions ++ [action]) after := by
  obtain ⟨hrecordId, hstreamId, hannounced, hsettled, hrecordState, hanswered, hsubscribed⟩ := h
  cases hstep with
  | start hworker =>
    constructor <;> simp_all
  | updateProgress hworker progress => constructor <;> simp_all
  | report hwaiting hsettled' progress =>
    constructor <;> simp_all [publishing, Connection.publish_channels]
  | retry hworker => constructor <;> simp_all
  | finish hworker outcome => constructor <;> simp_all
  | announce hworker =>
    constructor <;> simp_all [publishing, Connection.publish_channels]
  | @settle outcome hworker =>
    cases outcome <;> constructor <;> simp_all [Record.settle, settlement]
  | load hhandler =>
    constructor <;> simp_all [State.resume, Stream.onJob]
  | serve hserve =>
    have hserved : Action.serve ∈ actions ++ [.serve] :=
      List.mem_append_right _ (List.mem_singleton_self _)
    constructor <;> simp_all
  | @read item connection hread =>
    obtain ⟨-, hchannels, -⟩ := Connection.read_eq_some hread
    have hjobId := onRead_jobId state.stream item
    rcases onRead_handler state.stream item with hsame | ⟨loaded, hloaded, hreading⟩ <;>
      constructor <;> simp_all [State.resume]
  | answer hhandler => constructor <;> simp_all [Stream.onState]
  | snapshot hhandler =>
    obtain ⟨hdone, hjobId⟩ := Stream.writeSnapshot_handler hhandler
    constructor <;> simp_all [State.resume]

/-! ### While no terminal event is written -/

/-- How far the route has come with its subscription. -/
inductive Phase (job : Job) (actions : List Action) (state : State) : Prop
  | loading (hserve : .serve ∉ actions) (hhandler : state.stream.handler = .loading)
      (hconnection : state.connection = .fresh)
  | sent (hserve : .serve ∉ actions) {loaded : Job}
      (hhandler : state.stream.handler = .subscribing loaded)
      (hlistening : state.stream.listening = true)
      (hconnection : state.connection =
        Connection.fresh.send () (.subscribe (channelFor job.id)))
  | subscribed (hserve : .serve ∈ actions) (hhandler : state.stream.handler ≠ .loading)
      (hlistening : state.stream.listening = true)
      (hchannel : channelFor job.id ∈ state.connection.channels)
      (hsent : state.connection.sent = [])
      (hunsubscribed : ∀ channel,
        .reply () (.unsubscribe channel) ∉ state.connection.inbound)
      (hreply : ∀ loaded, state.stream.handler = .subscribing loaded →
        ∃ channel, .reply () (.subscribe channel) ∈ state.connection.inbound)

/-- The response is open, cleanup has not begun, and the listener stays registered. -/
structure Open (job : Job) (actions : List Action) (state : State) : Prop where
  closed : state.stream.closed = false
  ended : .ended ∉ state.stream.output
  phase : Phase job actions state

/-- A step of the worker that publishes nothing. -/
theorem Open.of_eq {job : Job} {actions : List Action} {state after : State}
    (h : Open job actions state) {action : Action} (haction : action ≠ .serve)
    (hstream : after.stream = state.stream) (hconnection : after.connection = state.connection) :
    Open job (actions ++ [action]) after := by
  obtain ⟨hclosed, hended, hphase⟩ := h
  have hserve : .serve ∈ actions ++ [action] ↔ .serve ∈ actions := by
    simp [haction.symm]
  refine ⟨by rw [hstream, hclosed], by rwa [hstream], ?_⟩
  cases hphase with
  | loading hnot hhandler hfresh =>
    exact .loading (fun hmem ↦ hnot (hserve.mp hmem)) (by rw [hstream, hhandler])
      (by rw [hconnection, hfresh])
  | sent hnot hhandler hlistening hsent =>
    exact .sent (fun hmem ↦ hnot (hserve.mp hmem)) (by rw [hstream, hhandler])
      (by rw [hstream, hlistening]) (by rw [hconnection, hsent])
  | subscribed hmem hhandler hlistening hchannel hsent hunsubscribed hreply =>
    refine .subscribed (hserve.mpr hmem) ?_ ?_ ?_ ?_ ?_ ?_
    · rwa [hstream]
    · rw [hstream, hlistening]
    · rwa [hconnection]
    · rw [hconnection, hsent]
    · rwa [hconnection]
    · rwa [hstream, hconnection]

/-- A step of the worker that publishes. Before the `SUBSCRIBE` has run the message goes nowhere. -/
theorem Open.of_publish {job : Job} {actions : List Action} {state after : State}
    (h : Open job actions state) {action : Action} (haction : action ≠ .serve)
    (hstream : after.stream = state.stream) {event : JobEvent}
    (hconnection : after.connection = publishing state event) :
    Open job (actions ++ [action]) after := by
  by_cases hchannel : (publication event).1 ∈ state.connection.channels
  · have hpublished : after.connection = { state.connection with inbound :=
        state.connection.inbound ++ [.message (publication event).1 (publication event).2] } := by
      rw [hconnection, publishing, Connection.publish, if_pos hchannel]
    obtain ⟨hclosed, hended, hphase⟩ := h
    refine ⟨by rw [hstream, hclosed], by rwa [hstream], ?_⟩
    cases hphase with
    | loading hnot hhandler hfresh =>
      rw [hfresh] at hchannel
      exact absurd hchannel (Finset.notMem_empty _)
    | sent hnot hhandler hlistening hsent =>
      rw [hsent] at hchannel
      exact absurd hchannel (Finset.notMem_empty _)
    | subscribed hmem hhandler hlistening hown hsent hunsubscribed hreply =>
      refine .subscribed (List.mem_append_left _ hmem) ?_ ?_ ?_ ?_ ?_ ?_
      · rwa [hstream]
      · rw [hstream, hlistening]
      · rwa [hpublished]
      · rw [hpublished, hsent]
      · intro channel hitem
        rw [hpublished, List.mem_append, List.mem_singleton] at hitem
        rcases hitem with hold | hnew
        · exact hunsubscribed channel hold
        · cases hnew
      · intro loaded hloaded
        rw [hstream] at hloaded
        obtain ⟨channel, hitem⟩ := hreply loaded hloaded
        refine ⟨channel, ?_⟩
        rw [hpublished]
        exact List.mem_append_left _ hitem
  · refine h.of_eq haction hstream ?_
    rw [hconnection, publishing, Connection.publish, if_neg hchannel]

/-- A message that an open stream reads without writing a terminal event changes what is written
and nothing else. -/
theorem onMessage_open {stream : Stream} (hclosed : stream.closed = false)
    (hended : .ended ∉ stream.output) {channel : String} {payload : Json}
    (hwritten : ¬ (stream.onMessage channel payload).1.TerminalWritten) :
    ∃ items : List Output, Output.ended ∉ items ∧ stream.onMessage channel payload =
      ({ stream with output := stream.output ++ items }, []) := by
  have hsame : ∃ items : List Output, Output.ended ∉ items ∧ ((stream, []) :
      Stream × List (Command String)) = ({ stream with output := stream.output ++ items }, []) :=
    ⟨[], List.not_mem_nil, by rw [List.append_nil]⟩
  rw [Stream.onMessage] at hwritten ⊢
  split_ifs at hwritten ⊢ with hlistening
  · split at hwritten
    · rename_i event hevent
      rw [Stream.onEvent, if_neg (by rw [hclosed]; exact Bool.false_ne_true)] at hwritten ⊢
      split_ifs at hwritten ⊢ with hterminal
      · exact absurd ((Stream.terminalWritten_write hended hterminal).mono
          (Stream.output_prefix_cleanup _)) hwritten
      · exact ⟨[.event event], by simp, rfl⟩
    · exact hsame
  · exact hsame

/-- What has been written stays written. -/
theorem terminalWritten_step {state after : State} {action : Action}
    (hstep : Step state action after) (h : state.stream.TerminalWritten) :
    after.stream.TerminalWritten := by
  cases hstep with
  | start | updateProgress | report | retry | finish | announce | settle => exact h
  | serve hserve => exact h
  | load hhandler => exact h.mono (List.prefix_append _ _)
  | @read item connection hread =>
    refine h.mono ?_
    cases item with
    | reply ticket command =>
      cases command with
      | subscribe channel =>
        show state.stream.output <+: state.stream.onSubscribed.output
        unfold Stream.onSubscribed
        split <;> exact List.prefix_refl _
      | unsubscribe channel => exact List.prefix_append _ _
    | message channel payload => exact state.stream.output_prefix_onMessage channel payload
  | answer hhandler =>
    refine h.mono ?_
    show state.stream.output <+: (state.stream.onState _).output
    unfold Stream.onState
    split <;> exact List.prefix_refl _
  | snapshot hhandler => exact h.mono state.stream.output_prefix_writeSnapshot

theorem open_start (job : Job) : Open job [] (system job).start where
  closed := rfl
  ended := List.not_mem_nil
  phase := .loading List.not_mem_nil rfl rfl

theorem Open.load {job : Job} {actions : List Action} {state : State}
    (h : Open job actions state) (htracked : Tracked job actions state)
    (hhandler : state.stream.handler = .loading) :
    Open job (actions ++ [.load])
      (state.resume state.connection (state.stream.onJob (some state.record.job))) := by
  obtain ⟨hclosed, hended, hphase⟩ := h
  refine ⟨hclosed, ?_, ?_⟩
  · show Output.ended ∉ state.stream.output ++ [Output.headers]
    simpa using hended
  · cases hphase with
    | loading hserve _ hconnection =>
      refine .sent (by simpa using hserve) rfl rfl ?_
      show sendAll state.connection [.subscribe (channelFor state.stream.jobId)] = _
      rw [hconnection, htracked.streamId]
      rfl
    | sent _ hother => rw [hhandler] at hother; cases hother
    | subscribed _ hother => exact absurd hhandler hother

theorem Open.serve {job : Job} {actions : List Action} {state : State}
    (h : Open job actions state) {served : Unit × Command String}
    {connection : Connection String Json Unit}
    (hserve : state.connection.serve = some (served, connection)) :
    Open job (actions ++ [.serve]) { state with connection := connection } := by
  obtain ⟨hclosed, hended, hphase⟩ := h
  refine ⟨hclosed, hended, ?_⟩
  have hmem : Action.serve ∈ actions ++ [.serve] :=
    List.mem_append_right _ (List.mem_singleton_self _)
  cases hphase with
  | loading _ _ hconnection =>
    rw [hconnection] at hserve
    cases hserve
  | sent _ hhandler hlistening hconnection =>
    rw [hconnection] at hserve
    obtain ⟨rfl, rfl⟩ := Prod.mk.inj (Option.some.inj hserve)
    refine .subscribed hmem ?_ hlistening (Finset.mem_insert_self _ _) rfl ?_ ?_
    · show state.stream.handler ≠ .loading
      rw [hhandler]
      exact nofun
    · intro channel hitem
      cases List.mem_singleton.mp hitem
    · exact fun _ _ ↦ ⟨_, List.mem_singleton_self _⟩
  | subscribed _ _ _ _ hsent =>
    rw [Connection.serve, hsent] at hserve
    cases hserve

theorem Open.read {job : Job} {actions : List Action} {state : State}
    (h : Open job actions state) {item : Incoming String Json Unit}
    {connection : Connection String Json Unit}
    (hread : state.connection.read = some (item, connection))
    (hwritten : ¬ (onRead state.stream item).1.TerminalWritten) :
    Open job (actions ++ [.read]) (state.resume connection (onRead state.stream item)) := by
  obtain ⟨hclosed, hended, hphase⟩ := h
  obtain ⟨hinbound, hchannels, hconnectionSent⟩ := Connection.read_eq_some hread
  cases hphase with
  | loading _ _ hconnection =>
    rw [hconnection] at hread
    cases hread
  | sent _ _ _ hconnection =>
    rw [hconnection] at hread
    cases hread
  | subscribed hserve hhandler hlistening hchannel hsent hunsubscribed hreply =>
    have hmem : Action.serve ∈ actions ++ [.read] := List.mem_append_left _ hserve
    have hunsubscribed' : ∀ channel, .reply () (.unsubscribe channel) ∉ connection.inbound :=
      fun channel hitem ↦ hunsubscribed channel (hinbound ▸ List.mem_cons_of_mem _ hitem)
    cases item with
    | reply ticket command =>
      cases command with
      | unsubscribe channel =>
        exact absurd (by rw [hinbound]; exact List.mem_cons_self) (hunsubscribed channel)
      | subscribe channel =>
        obtain ⟨hnotSubscribing, hnotLoading⟩ := state.stream.onSubscribed_handler
        obtain ⟨hclosed', hlistening', houtput⟩ := state.stream.onSubscribed_rest
        refine ⟨hclosed'.trans hclosed, ?_, .subscribed hmem (hnotLoading hhandler)
          (hlistening'.trans hlistening) ?_ ?_ hunsubscribed' ?_⟩
        · show Output.ended ∉ state.stream.onSubscribed.output
          rwa [houtput]
        · show channelFor job.id ∈ connection.channels
          rwa [hchannels]
        · show connection.sent = []
          rw [hconnectionSent, hsent]
        · exact fun loaded hloaded ↦ absurd hloaded (hnotSubscribing loaded)
    | message channel payload =>
      obtain ⟨items, hitems, hresumed⟩ := onMessage_open hclosed hended hwritten
      show Open job _ (state.resume connection (state.stream.onMessage channel payload))
      rw [hresumed]
      refine ⟨hclosed, ?_, .subscribed hmem hhandler hlistening ?_ ?_ hunsubscribed' ?_⟩
      · show Output.ended ∉ state.stream.output ++ items
        rw [List.mem_append]
        exact fun hor ↦ hor.elim hended hitems
      · show channelFor job.id ∈ connection.channels
        rwa [hchannels]
      · show connection.sent = []
        rw [hconnectionSent, hsent]
      · intro loaded hloaded
        obtain ⟨own, hown⟩ := hreply loaded hloaded
        rw [hinbound] at hown
        exact ⟨own, (List.mem_cons.mp hown).resolve_left nofun⟩

/-- The route goes on after its subscription: the handler changes, and perhaps what is written. -/
theorem Open.proceed {job : Job} {actions : List Action} {state after : State}
    (h : Open job actions state) (action : Action)
    (hbefore : state.stream.handler ≠ .loading ∧
      ∀ loaded, state.stream.handler ≠ .subscribing loaded)
    (hafter : after.stream.handler ≠ .loading ∧
      ∀ loaded, after.stream.handler ≠ .subscribing loaded)
    (hclosed : after.stream.closed = state.stream.closed)
    (hlistening : after.stream.listening = state.stream.listening)
    (hended : .ended ∉ after.stream.output) (hconnection : after.connection = state.connection) :
    Open job (actions ++ [action]) after := by
  refine ⟨hclosed.trans h.closed, hended, ?_⟩
  cases h.phase with
  | loading _ hhandler => exact absurd hhandler hbefore.1
  | sent _ hhandler => exact absurd hhandler (hbefore.2 _)
  | subscribed hserve _ hlistening' hchannel hsent hunsubscribed _ =>
    refine .subscribed (List.mem_append_left _ hserve) hafter.1 (hlistening.trans hlistening')
      ?_ ?_ ?_ fun loaded hloaded ↦ absurd hloaded (hafter.2 loaded)
    · rwa [hconnection]
    · rwa [hconnection]
    · rwa [hconnection]

theorem Open.answer {job : Job} {actions : List Action} {state : State}
    (h : Open job actions state) {loaded : Job}
    (hhandler : state.stream.handler = .reading loaded) :
    Open job (actions ++ [.answer])
      { state with stream := state.stream.onState state.record.state } := by
  have honState := Stream.onState_of_reading hhandler state.record.state
  rw [honState]
  refine h.proceed _ ?_ ⟨nofun, fun _ ↦ nofun⟩ rfl rfl h.ended rfl
  rw [hhandler]
  exact ⟨nofun, fun _ ↦ nofun⟩

theorem Open.snapshot {job : Job} {actions : List Action} {state : State}
    (h : Open job actions state) {loaded : Job} {answered : QueueState}
    (hhandler : state.stream.handler = .answered loaded answered)
    (hwritten : ¬ state.stream.writeSnapshot.1.TerminalWritten) :
    Open job (actions ++ [.snapshot])
      (state.resume state.connection state.stream.writeSnapshot) := by
  have hanswered : ¬ (answered = .completed ∨ answered = .failed) := fun hterminal ↦
    hwritten (Stream.terminalWritten_writeSnapshot hhandler h.ended hterminal)
  rw [Stream.writeSnapshot_eq hhandler, if_neg hanswered]
  refine h.proceed _ ?_ ⟨nofun, fun _ ↦ nofun⟩ rfl rfl ?_ rfl
  · rw [hhandler]
    exact ⟨nofun, fun _ ↦ nofun⟩
  · show Output.ended ∉ state.stream.output ++ [Output.event _]
    simpa using h.ended

/-- While no terminal event is written the stream stays open. -/
theorem Open.step {job : Job} {actions : List Action} {state after : State} {action : Action}
    (h : Open job actions state) (htracked : Tracked job actions state)
    (hstep : Step state action after) (hwritten : ¬ after.stream.TerminalWritten) :
    Open job (actions ++ [action]) after := by
  cases hstep with
  | start | updateProgress | retry | finish | settle => exact h.of_eq nofun rfl rfl
  | report | announce => exact h.of_publish nofun rfl rfl
  | load hhandler => exact h.load htracked hhandler
  | serve hserve => exact h.serve hserve
  | read hread => exact h.read hread hwritten
  | answer hhandler => exact h.answer hhandler
  | snapshot hhandler => exact h.snapshot hhandler hwritten

/-! ### The two ways of the outcome -/

/-- A terminal event is on its way to the stream, or has been read. -/
def Arriving (job : Job) (state : State) : Prop :=
  state.stream.TerminalWritten ∨
    ∃ item ∈ state.connection.inbound, CarriesTerminal job.id item

/-- The route knows that the job has settled, or has known it. -/
def Known (state : State) : Prop :=
  state.stream.TerminalWritten ∨ ∃ loaded answer,
    state.stream.handler = .answered loaded answer ∧ (answer = .completed ∨ answer = .failed)

/-- A terminal event in flight, known or written came by one of the two ways, and each way, once it
was taken, brings it. -/
structure Ways (job : Job) (actions : List Action) (state : State) : Prop where
  carried : (∃ item ∈ state.connection.inbound, CarriesTerminal job.id item) →
    SubscribedInTime actions
  seen : ∀ loaded answer, state.stream.handler = .answered loaded answer →
    (answer = .completed ∨ answer = .failed) → AskedInTime actions
  written : state.stream.TerminalWritten → SubscribedInTime actions ∨ AskedInTime actions
  arriving : SubscribedInTime actions → .announce ∈ actions → Arriving job state
  known : AskedInTime actions → .answer ∈ actions → Known state

theorem ways_start (job : Job) : Ways job [] (system job).start where
  carried := fun ⟨_, hitem, _⟩ ↦ (List.not_mem_nil hitem).elim
  seen := fun _ _ hhandler ↦ nomatch hhandler
  written := fun ⟨_, hevent, _⟩ ↦ (List.not_mem_nil hevent).elim
  arriving := fun h ↦ (not_precedes_nil _ _ h).elim
  known := fun h ↦ (not_precedes_nil _ _ h).elim

/-- A step that decides nothing and leaves the stream and what is in flight of terminal events. -/
theorem Ways.of_eq {job : Job} {actions : List Action} {state after : State}
    (h : Ways job actions state) {action : Action}
    (haction : action ≠ .serve ∧ action ≠ .announce ∧ action ≠ .settle ∧ action ≠ .answer)
    (hstream : after.stream = state.stream)
    (hinbound : (∃ item ∈ after.connection.inbound, CarriesTerminal job.id item) ↔
      ∃ item ∈ state.connection.inbound, CarriesTerminal job.id item) :
    Ways job (actions ++ [action]) after := by
  obtain ⟨hserve, hannounce, hsettle, hanswer⟩ := haction
  have hsubscribed : SubscribedInTime (actions ++ [action]) ↔ SubscribedInTime actions :=
    precedes_concat_of_not hserve
  have hasked : AskedInTime (actions ++ [action]) ↔ AskedInTime actions :=
    precedes_concat_of_not hsettle
  have hannounceMem : Action.announce ∈ actions ++ [action] ↔ Action.announce ∈ actions := by
    simp [hannounce.symm]
  have hanswerMem : Action.answer ∈ actions ++ [action] ↔ Action.answer ∈ actions := by
    simp [hanswer.symm]
  constructor
  · rw [hinbound, hsubscribed]
    exact h.carried
  · rw [hstream, hasked]
    exact h.seen
  · rw [hstream, hsubscribed, hasked]
    exact h.written
  · rw [hsubscribed, hannounceMem, Arriving, hstream, hinbound]
    exact h.arriving
  · rw [hasked, hanswerMem, Known, hstream]
    exact h.known

/-- A `processing` event in flight is not terminal. -/
theorem carries_publishing_progress (job : Job) (state : State) (progress : ℚ) :
    (∃ item ∈ (publishing state (progressEvent state.record.job progress)).inbound,
      CarriesTerminal job.id item) ↔
        ∃ item ∈ state.connection.inbound, CarriesTerminal job.id item := by
  rw [publishing, Connection.publish]
  split_ifs
  · have hnot : ¬ CarriesTerminal job.id (.message
        (publication (progressEvent state.record.job progress)).1
        (publication (progressEvent state.record.job progress)).2) := by
      rintro ⟨event, hevent, hterminal⟩
      have hheard : Events.handler job.id (publication _).1 (some (publication _).2) =
        some event := hevent
      rw [handler_publication] at hheard
      split_ifs at hheard with hvalid
      obtain rfl := Option.some.inj hheard
      rcases hterminal with hcompleted | hfailed
      · cases hcompleted
      · cases hfailed
    simp [hnot]
  · exact Iff.rfl

/-- The terminal event of a job is heard by the listener of the job. -/
theorem carriesTerminal_outcome {job record : Job} (hid : record.id = job.id)
    (outcome : Except JobError ProcessorResult) :
    CarriesTerminal job.id (.message (publication (outcomeEvent record outcome)).1
      (publication (outcomeEvent record outcome)).2) := by
  refine ⟨outcomeEvent record outcome, ?_, ?_⟩
  · show Events.handler job.id (publication _).1 (some (publication _).2) = _
    rw [handler_publication]
    cases outcome with
    | ok result => exact if_pos ⟨hid, Worker.completedEvent_valid record result⟩
    | error error => exact if_pos ⟨hid, Worker.failedEvent_valid record error.message⟩
  · cases outcome with
    | ok result => exact Or.inl rfl
    | error error => exact Or.inr rfl

/-- The worker announces the end. When the route has subscribed, the message is sent to it. -/
theorem Ways.announce {job : Job} {actions : List Action} {state : State}
    (h : Ways job actions state) (htracked : Tracked job actions state)
    (hopen : ¬ state.stream.TerminalWritten → Open job actions state)
    {outcome : Except JobError ProcessorResult} (hworker : state.worker = .finishing outcome) :
    Ways job (actions ++ [.announce]) { state with
      worker := .announced outcome
      connection := publishing state (outcomeEvent state.record.job outcome) } := by
  have hnone : Action.announce ∉ actions := by
    rw [htracked.announced, hworker]
    simp
  have hsubscribed : SubscribedInTime (actions ++ [.announce]) ↔ SubscribedInTime actions :=
    precedes_concat_of_not nofun
  have hasked : AskedInTime (actions ++ [.announce]) ↔ AskedInTime actions :=
    precedes_concat_of_not nofun
  have hchannel : (publication (outcomeEvent state.record.job outcome)).1 =
      channelFor job.id := by
    rw [← htracked.recordId]
    cases outcome <;> rfl
  constructor
  · rintro ⟨item, hitem, hcarries⟩
    refine hsubscribed.mpr ?_
    by_cases hown : channelFor job.id ∈ state.connection.channels
    · refine precedes_of_mem (htracked.subscribed hown) rfl ?_
      rintro other hother rfl
      exact hnone hother
    · rw [publishing, Connection.publish, hchannel, if_neg hown] at hitem
      exact h.carried ⟨item, hitem, hcarries⟩
  · rw [hasked]
    exact h.seen
  · rw [hsubscribed, hasked]
    exact h.written
  · intro hearly _
    obtain ⟨action, haction, rfl⟩ := (hsubscribed.mp hearly).exists_mem
    by_cases hwritten : state.stream.TerminalWritten
    · exact Or.inl hwritten
    · refine Or.inr ⟨_, ?_, carriesTerminal_outcome htracked.recordId outcome⟩
      cases (hopen hwritten).phase with
      | loading hserve => exact absurd haction hserve
      | sent hserve => exact absurd haction hserve
      | subscribed _ _ _ hown =>
        show _ ∈ (Connection.publish _ _ _).inbound
        rw [Connection.publish, hchannel, if_pos hown]
        exact List.mem_append_right _ (List.mem_singleton_self _)
  · rw [hasked]
    intro hearly hanswer
    exact h.known hearly (mem_of_mem_concat hanswer (by simp))

/-- The queue settles the job. -/
theorem Ways.settle {job : Job} {actions : List Action} {state : State}
    (h : Ways job actions state) {outcome : Except JobError ProcessorResult} :
    Ways job (actions ++ [.settle])
      { state with worker := .settled, record := state.record.settle (settlement outcome) } := by
  have hsubscribed : SubscribedInTime (actions ++ [.settle]) ↔ SubscribedInTime actions :=
    precedes_concat_of_not nofun
  constructor
  · rw [hsubscribed]
    exact h.carried
  · intro loaded answer hhandler hanswer
    exact (h.seen loaded answer hhandler hanswer).concat _
  · rw [hsubscribed]
    exact fun hwritten ↦ (h.written hwritten).imp id fun hasked ↦ hasked.concat _
  · rw [hsubscribed]
    intro hearly hannounce
    exact h.arriving hearly (mem_of_mem_concat hannounce (by simp))
  · intro hasked hanswer
    have hbefore : Action.answer ∈ actions := mem_of_mem_concat hanswer (by simp)
    refine h.known ?_ hbefore
    rcases precedes_concat_iff.mp hasked with hold | ⟨-, hnone⟩
    · exact hold
    · exact absurd rfl (hnone _ hbefore)

/-- The server runs a command and replies. -/
theorem Ways.serve {job : Job} {actions : List Action} {state : State}
    (h : Ways job actions state) {served : Unit × Command String}
    {connection : Connection String Json Unit}
    (hserve : state.connection.serve = some (served, connection)) :
    Ways job (actions ++ [.serve]) { state with connection := connection } := by
  obtain ⟨-, -, hinbound⟩ :=
    @Connection.serve_eq_some _ _ _ _ _ _ served.1 served.2 hserve
  have hasked : AskedInTime (actions ++ [.serve]) ↔ AskedInTime actions :=
    precedes_concat_of_not nofun
  constructor
  · rintro ⟨item, hitem, hcarries⟩
    rw [hinbound, List.mem_append, List.mem_singleton] at hitem
    rcases hitem with hold | rfl
    · exact (h.carried ⟨item, hold, hcarries⟩).concat _
    · obtain ⟨event, hevent, -⟩ := hcarries
      cases hevent
  · rw [hasked]
    exact h.seen
  · rw [hasked]
    exact fun hwritten ↦ (h.written hwritten).imp (fun hearly ↦ hearly.concat _) id
  · intro hearly hannounce
    have hbefore : Action.announce ∈ actions := mem_of_mem_concat hannounce (by simp)
    have hold : SubscribedInTime actions := by
      rcases precedes_concat_iff.mp hearly with hold | ⟨-, hnone⟩
      · exact hold
      · exact absurd rfl (hnone _ hbefore)
    refine (h.arriving hold hbefore).imp id ?_
    rintro ⟨item, hitem, hcarries⟩
    refine ⟨item, ?_, hcarries⟩
    rw [hinbound]
    exact List.mem_append_left _ hitem
  · rw [hasked]
    intro hearly hanswer
    exact h.known hearly (mem_of_mem_concat hanswer (by simp))

/-- The route subscribes. -/
theorem Ways.load {job : Job} {actions : List Action} {state : State}
    (h : Ways job actions state)
    (hopen : ¬ state.stream.TerminalWritten → Open job actions state)
    (hhandler : state.stream.handler = .loading) :
    Ways job (actions ++ [.load])
      (state.resume state.connection (state.stream.onJob (some state.record.job))) := by
  have hsubscribed : SubscribedInTime (actions ++ [.load]) ↔ SubscribedInTime actions :=
    precedes_concat_of_not nofun
  have hasked : AskedInTime (actions ++ [.load]) ↔ AskedInTime actions :=
    precedes_concat_of_not nofun
  have hprefix : state.stream.output <+:
      (state.stream.onJob (some state.record.job)).1.output := List.prefix_append _ _
  constructor
  · rw [hsubscribed]
    exact h.carried
  · exact fun _ _ hother ↦ nomatch hother
  · rw [hsubscribed, hasked]
    intro hwritten
    by_cases hbefore : state.stream.TerminalWritten
    · exact h.written hbefore
    · refine absurd (hwritten.of_subset (hopen hbefore).ended fun event _ hevent ↦ ?_) hbefore
      exact (List.mem_append.mp hevent).resolve_right (by simp)
  · rw [hsubscribed]
    intro hearly hannounce
    have hbefore : Action.announce ∈ actions := mem_of_mem_concat hannounce (by simp)
    exact (h.arriving hearly hbefore).imp (fun hwritten ↦ hwritten.mono hprefix) id
  · rw [hasked]
    intro hearly hanswer
    have hbefore : Action.answer ∈ actions := mem_of_mem_concat hanswer (by simp)
    refine (h.known hearly hbefore).imp (fun hwritten ↦ hwritten.mono hprefix) ?_
    rintro ⟨loaded, answer, hother, -⟩
    rw [hhandler] at hother
    cases hother

/-- `getState` is answered. The job has settled before exactly when the answer says so. -/
theorem Ways.answer {job : Job} {actions : List Action} {state : State}
    (h : Ways job actions state) (htracked : Tracked job actions state) {loaded : Job}
    (hhandler : state.stream.handler = .reading loaded) :
    Ways job (actions ++ [.answer])
      { state with stream := state.stream.onState state.record.state } := by
  have honState := Stream.onState_of_reading hhandler state.record.state
  have hnone : Action.answer ∉ actions := by
    rw [htracked.answered, hhandler]
    simp
  have hsubscribed : SubscribedInTime (actions ++ [.answer]) ↔ SubscribedInTime actions :=
    precedes_concat_of_not nofun
  have hasked : AskedInTime (actions ++ [.answer]) ↔ AskedInTime actions :=
    precedes_concat_of_not nofun
  rw [honState]
  constructor
  · rw [hsubscribed]
    exact h.carried
  · intro other answer hother hanswer
    obtain ⟨-, rfl⟩ := Handler.answered.inj hother
    refine hasked.mpr (precedes_of_mem
      (htracked.settled.mpr (htracked.recordState.mp hanswer)) rfl ?_)
    rintro earlier hearlier rfl
    exact hnone hearlier
  · rw [hsubscribed, hasked]
    exact h.written
  · rw [hsubscribed]
    intro hearly hannounce
    exact h.arriving hearly (mem_of_mem_concat hannounce (by simp))
  · rw [hasked]
    intro hearly _
    obtain ⟨action, haction, rfl⟩ := hearly.exists_mem
    exact Or.inr ⟨loaded, _, rfl, htracked.recordState.mpr (htracked.settled.mp haction)⟩

/-- The route writes its snapshot. -/
theorem Ways.snapshot {job : Job} {actions : List Action} {state : State}
    (h : Ways job actions state)
    (hopen : ¬ state.stream.TerminalWritten → Open job actions state) {loaded : Job}
    {answered : QueueState} (hhandler : state.stream.handler = .answered loaded answered) :
    Ways job (actions ++ [.snapshot])
      (state.resume state.connection state.stream.writeSnapshot) := by
  have hsubscribed : SubscribedInTime (actions ++ [.snapshot]) ↔ SubscribedInTime actions :=
    precedes_concat_of_not nofun
  have hasked : AskedInTime (actions ++ [.snapshot]) ↔ AskedInTime actions :=
    precedes_concat_of_not nofun
  have hdone : state.stream.writeSnapshot.1.handler = .done :=
    (Stream.writeSnapshot_handler hhandler).1
  have hprefix := state.stream.output_prefix_writeSnapshot
  constructor
  · rw [hsubscribed, State.resume, sendAll_inbound]
    exact h.carried
  · intro other answer hother
    have hanswered : state.stream.writeSnapshot.1.handler = .answered other answer := hother
    rw [hdone] at hanswered
    cases hanswered
  · rw [hsubscribed, hasked]
    intro hwritten
    by_cases hbefore : state.stream.TerminalWritten
    · exact h.written hbefore
    · rcases Stream.TerminalWritten.of_writeSnapshot hwritten hhandler (hopen hbefore).ended with
        hold | hterminal
      · exact absurd hold hbefore
      · exact Or.inr (h.seen _ _ hhandler hterminal)
  · rw [hsubscribed, Arriving, State.resume, sendAll_inbound]
    intro hearly hannounce
    have hbefore : Action.announce ∈ actions := mem_of_mem_concat hannounce (by simp)
    exact (h.arriving hearly hbefore).imp (fun hwritten ↦ hwritten.mono hprefix) id
  · rw [hasked]
    intro hearly hanswer
    have hmem : Action.answer ∈ actions := mem_of_mem_concat hanswer (by simp)
    by_cases hbefore : state.stream.TerminalWritten
    · exact Or.inl (hbefore.mono hprefix)
    · obtain ⟨other, answer, hother, hterminal⟩ := (h.known hearly hmem).resolve_left hbefore
      rw [hhandler] at hother
      obtain ⟨rfl, rfl⟩ := Handler.answered.inj hother
      exact Or.inl (Stream.terminalWritten_writeSnapshot hhandler (hopen hbefore).ended hterminal)

/-- The subscriber reads an item. A terminal event that an open stream reads is written. -/
theorem Ways.read {job : Job} {actions : List Action} {state : State}
    (h : Ways job actions state) (htracked : Tracked job actions state)
    (hopen : ¬ state.stream.TerminalWritten → Open job actions state)
    {item : Incoming String Json Unit} {connection : Connection String Json Unit}
    (hread : state.connection.read = some (item, connection))
    (hmono : state.stream.TerminalWritten → (onRead state.stream item).1.TerminalWritten) :
    Ways job (actions ++ [.read]) (state.resume connection (onRead state.stream item)) := by
  obtain ⟨hinbound, -, -⟩ := Connection.read_eq_some hread
  have hsubscribed : SubscribedInTime (actions ++ [.read]) ↔ SubscribedInTime actions :=
    precedes_concat_of_not nofun
  have hasked : AskedInTime (actions ++ [.read]) ↔ AskedInTime actions :=
    precedes_concat_of_not nofun
  have hitem : item ∈ state.connection.inbound := by
    rw [hinbound]
    exact List.mem_cons_self
  constructor
  · rw [hsubscribed, State.resume, sendAll_inbound]
    rintro ⟨later, hlater, hcarries⟩
    refine h.carried ⟨later, ?_, hcarries⟩
    rw [hinbound]
    exact List.mem_cons_of_mem _ hlater
  · rw [hasked]
    intro loaded answer hhandler
    rcases onRead_handler state.stream item with hsame | ⟨other, -, hreading⟩
    · exact h.seen loaded answer (hsame.symm.trans hhandler)
    · cases hreading.symm.trans hhandler
  · rw [hsubscribed, hasked]
    intro hwritten
    by_cases hbefore : state.stream.TerminalWritten
    · exact h.written hbefore
    · have hopened := hopen hbefore
      cases item with
      | reply ticket command =>
        refine absurd (Stream.TerminalWritten.of_subset hwritten hopened.ended
          fun event _ hevent ↦ ?_) hbefore
        cases command with
        | subscribe channel =>
          rw [← state.stream.onSubscribed_rest.2.2]
          exact hevent
        | unsubscribe channel => exact (List.mem_append.mp hevent).resolve_right (by simp)
      | message channel payload =>
        rcases Stream.TerminalWritten.of_onMessage hwritten hopened.ended hopened.closed with
          hold | hcarries
        · exact absurd hold hbefore
        · rw [htracked.streamId] at hcarries
          exact Or.inl (h.carried ⟨_, hitem, hcarries⟩)
  · rw [hsubscribed, Arriving, State.resume, sendAll_inbound]
    intro hearly hannounce
    have hmem : Action.announce ∈ actions := mem_of_mem_concat hannounce (by simp)
    by_cases hbefore : state.stream.TerminalWritten
    · exact Or.inl (hmono hbefore)
    · obtain ⟨found, hfound, hcarries⟩ := (h.arriving hearly hmem).resolve_left hbefore
      rw [hinbound] at hfound
      rcases List.mem_cons.mp hfound with rfl | hlater
      · refine Or.inl ?_
        have hopened := hopen hbefore
        cases found with
        | reply ticket command =>
          obtain ⟨event, hevent, -⟩ := hcarries
          cases hevent
        | message channel payload =>
          refine Stream.terminalWritten_onMessage ?_ hopened.closed hopened.ended ?_
          · cases hopened.phase with
            | loading _ _ hconnection => rw [hconnection] at hitem; cases hitem
            | sent _ _ hlistening => exact hlistening
            | subscribed _ _ hlistening => exact hlistening
          · rwa [htracked.streamId]
      · exact Or.inr ⟨found, hlater, hcarries⟩
  · rw [hasked]
    intro hearly hanswer
    have hmem : Action.answer ∈ actions := mem_of_mem_concat hanswer (by simp)
    refine (h.known hearly hmem).imp hmono ?_
    rintro ⟨loaded, answer, hhandler, hterminal⟩
    rcases onRead_handler state.stream item with hsame | ⟨other, hother, -⟩
    · exact ⟨loaded, answer, hsame.trans hhandler, hterminal⟩
    · cases hother.symm.trans hhandler

/-- What holds along every run. -/
structure Invariant (job : Job) (actions : List Action) (state : State) : Prop where
  tracked : Tracked job actions state
  opened : ¬ state.stream.TerminalWritten → Open job actions state
  ways : Ways job actions state

theorem Invariant.step {job : Job} {actions : List Action} {state after : State} {action : Action}
    (h : Invariant job actions state) (hstep : Step state action after) :
    Invariant job (actions ++ [action]) after := by
  obtain ⟨htracked, hopen, hways⟩ := h
  refine ⟨tracked_step htracked hstep, fun hwritten ↦ ?_, ?_⟩
  · have hbefore : ¬ state.stream.TerminalWritten := fun hold ↦
      hwritten (terminalWritten_step hstep hold)
    exact (hopen hbefore).step htracked hstep hwritten
  · have hmono := terminalWritten_step hstep
    cases hstep with
    | start | updateProgress | retry | finish =>
      exact hways.of_eq ⟨nofun, nofun, nofun, nofun⟩ rfl Iff.rfl
    | report _ _ progress =>
      exact hways.of_eq ⟨nofun, nofun, nofun, nofun⟩ rfl
        (carries_publishing_progress job state progress)
    | announce hworker => exact hways.announce htracked hopen hworker
    | settle hworker => exact hways.settle
    | load hhandler => exact hways.load hopen hhandler
    | serve hserve => exact hways.serve hserve
    | read hread => exact hways.read htracked hopen hread hmono
    | answer hhandler => exact hways.answer htracked hhandler
    | snapshot hhandler => exact hways.snapshot hopen hhandler

theorem invariant_of_run {job : Job} {actions : List Action} {state : State}
    (hrun : (system job).run actions = some state) : Invariant job actions state :=
  run_induction (motive := Invariant job)
    ⟨tracked_start job, fun _ ↦ open_start job, ways_start job⟩
    (fun _ _ _ _ _ h hstep ↦ h.step (step_cases hstep)) hrun

/-! ### The end of a run -/

/-- In a finished state the job has settled, the handler is done, and nothing is in flight. -/
theorem finished_cases {job : Job} {actions : List Action} {state : State}
    (h : Invariant job actions state) (hfinished : Finished state)
    (hwritten : ¬ state.stream.TerminalWritten) :
    state.worker = .settled ∧ state.stream.handler = .done ∧ state.connection.inbound = [] := by
  have hinbound : state.connection.inbound = [] := by
    have hread := hfinished .read
    simp only [OutcomeDelivery.step, Option.map_eq_none_iff] at hread
    unfold Connection.read at hread
    split at hread
    · assumption
    · cases hread
  refine ⟨?_, ?_, hinbound⟩
  · cases hworker : state.worker with
    | waiting =>
      have hstart := hfinished .start
      simp [OutcomeDelivery.step, hworker] at hstart
    | running =>
      have hretry := hfinished .retry
      simp [OutcomeDelivery.step, hworker] at hretry
    | finishing outcome =>
      have hannounce := hfinished .announce
      simp [OutcomeDelivery.step, hworker] at hannounce
    | announced outcome =>
      have hsettle := hfinished .settle
      simp [OutcomeDelivery.step, hworker] at hsettle
    | settled => rfl
  · cases hhandler : state.stream.handler with
    | loading =>
      have hload := hfinished .load
      simp [OutcomeDelivery.step, hhandler] at hload
    | subscribing loaded =>
      cases (h.opened hwritten).phase with
      | loading _ hother => rw [hhandler] at hother; cases hother
      | sent _ _ _ hconnection =>
        have hserve := hfinished .serve
        simp only [OutcomeDelivery.step, Option.map_eq_none_iff] at hserve
        rw [hconnection] at hserve
        cases hserve
      | subscribed _ _ _ _ _ _ hreply =>
        obtain ⟨channel, hchannel⟩ := hreply loaded hhandler
        rw [hinbound] at hchannel
        cases hchannel
    | reading loaded =>
      have hanswer := hfinished .answer
      simp [OutcomeDelivery.step, hhandler] at hanswer
    | answered loaded answer =>
      have hsnapshot := hfinished .snapshot
      simp [OutcomeDelivery.step, hhandler] at hsnapshot
    | done => rfl

/-- No lost outcome, and when. Assumes: a run that has come to its end, with the job settled and no
step left. A terminal event has been written to the stream exactly when the subscription was there
before the terminal event was published, or the job had settled before the state was asked for. -/
theorem terminalWritten_iff {job : Job} {actions : List Action} {state : State}
    (hrun : (system job).run actions = some state) (hfinished : Finished state) :
    state.stream.TerminalWritten ↔ SubscribedInTime actions ∨ AskedInTime actions := by
  have hinvariant := invariant_of_run hrun
  refine ⟨hinvariant.ways.written, fun hways ↦ ?_⟩
  by_contra hwritten
  obtain ⟨hworker, hhandler, hinbound⟩ := finished_cases hinvariant hfinished hwritten
  rcases hways with hsubscribed | hasked
  · have hannounce : Action.announce ∈ actions :=
      hinvariant.tracked.announced.mpr (Or.inr hworker)
    obtain ⟨item, hitem, -⟩ :=
      (hinvariant.ways.arriving hsubscribed hannounce).resolve_left hwritten
    rw [hinbound] at hitem
    cases hitem
  · have hanswer : Action.answer ∈ actions := hinvariant.tracked.answered.mpr (Or.inr hhandler)
    obtain ⟨loaded, answer, hanswered, -⟩ :=
      (hinvariant.ways.known hasked hanswer).resolve_left hwritten
    rw [hhandler] at hanswered
    cases hanswered

/-- A job with one attempt. -/
def thumbnailJob : Job := { id := "1", operation := "image.thumbnail" }

/-- The outcome of `thumbnailJob`. -/
def thumbnailOutcome : Except JobError ProcessorResult := .ok { outputs := ["outputs/a.webp"] }

/-- The client is subscribed before the job ends. -/
def subscribedBefore : List Action :=
  [.load, .serve, .read, .answer, .snapshot, .start, .finish thumbnailOutcome, .announce, .read,
    .serve, .read, .settle]

theorem terminalWritten_subscribedBefore :
    ∃ state, (system thumbnailJob).run subscribedBefore = some state ∧ Finished state ∧
      state.stream.TerminalWritten := by
  obtain ⟨state, hrun, hfinished⟩ : ∃ state,
      (system thumbnailJob).run subscribedBefore = some state ∧ Finished state := by
    refine ⟨_, rfl, fun action ↦ ?_⟩
    cases action <;> rfl
  refine ⟨state, hrun, hfinished, (terminalWritten_iff hrun hfinished).mpr (Or.inl ?_)⟩
  exact ⟨[.load], .serve, _, rfl, rfl, by simp⟩

/-- The worker publishes the end of the job, the client subscribes and asks for the state, and then
the queue settles the job. -/
def betweenPublishAndSettle : List Action :=
  [.load, .start, .finish thumbnailOutcome, .announce, .serve, .read, .answer, .snapshot, .settle]

/-- The run has come to its end, and the client has been told of no outcome. -/
theorem not_terminalWritten_betweenPublishAndSettle :
    ∃ state, (system thumbnailJob).run betweenPublishAndSettle = some state ∧ Finished state ∧
      state.worker = .settled ∧ ¬ state.stream.TerminalWritten := by
  refine ⟨_, rfl, fun action ↦ ?_, rfl, Stream.not_terminalWritten fun event hevent ↦ ?_⟩
  · cases action <;> rfl
  · have hwritten : Output.event event ∈
        [.headers, .event (snapshot thumbnailJob .active)] := hevent
    obtain rfl : event = snapshot thumbnailJob .active := by simpa using hwritten
    exact of_decide_eq_false rfl

end FileForge.Jobs.OutcomeDelivery
