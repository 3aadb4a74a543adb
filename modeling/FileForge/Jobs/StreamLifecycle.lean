import FileForge.Foundation.Execution
import FileForge.Jobs.EventStream

/-!
# The life of an event stream

`GET /jobs/:id/events` once more, with everything that can happen to it: the client closes, the
keep-alive ticks, the connection times out, messages arrive, and each call that the handler or
`cleanup` waits for completes or fails. A `Route` keeps the stream of `EventStream`, which every
step follows (`step_stream`), and a log of what was written and of when cleanup began and the
response ended. `Step` lists what a step can do.

`endsCleanly_iff` says in which runs nothing is written after the start of cleanup and no event
after a terminal one: those in which the snapshot finds the stream open. The handler does not look
at `closed` when `getState` has answered.
-/

set_option autoImplicit false
set_option relaxedAutoImplicit false

namespace FileForge.Jobs.StreamLifecycle

open Foundation.JsonValue Foundation.Execution Shared.Contract Queue EventStream

/-! ### The route -/

/-- What happens to a response, in order. -/
inductive Mark
  | notFound
  | internalError
  | headers
  | event (event : JobEvent)
  /-- `: keepalive` -/
  | comment
  /-- `cleanup` has begun. -/
  | cleanup
  | ended

/-- An event or a comment is written. -/
def Mark.IsWrite : Mark → Prop
  | .event _ | .comment => True
  | _ => False

def Mark.IsEvent : Mark → Prop
  | .event _ => True
  | _ => False

/-- A terminal event is written. -/
def Mark.isTerminal : Mark → Bool
  | .event sent => sent.state = .completed || sent.state = .failed
  | _ => false

/-- A request for the events of a job. -/
structure Route where
  stream : Stream
  /-- The request has emitted `close`. -/
  gone : Bool := false
  /-- `cleanup` waits for the server to confirm `UNSUBSCRIBE`. -/
  unsubscribing : Bool := false
  log : List Mark := []

namespace Route

/-- The request has a listener for `close`: it is registered together with the timers. -/
def attached (route : Route) : Bool := route.stream.timers || route.stream.closed

/-- `writeEvent`. -/
def writeEvent (route : Route) (event : JobEvent) : Route :=
  { route with stream := route.stream.write (.event event), log := route.log ++ [.event event] }

/-- `cleanup`, up to its first wait. -/
def cleanup (route : Route) : Route :=
  if route.stream.closed then route
  else { route with
    stream := route.stream.cleanup.1
    unsubscribing := route.stream.hasUnsubscribe
    log := route.log ++ .cleanup :: if route.stream.hasUnsubscribe then [] else [.ended] }

/-- The listener gets an event of its job. -/
def onEvent (route : Route) (event : JobEvent) : Route :=
  if route.stream.closed then route
  else if event.state = .completed ∨ event.state = .failed then (route.writeEvent event).cleanup
  else route.writeEvent event

/-- `getState` has answered: the snapshot, and cleanup if the job has settled. -/
def onState (route : Route) (job : Job) (state : QueueState) : Route :=
  let written := { route with
    stream := route.stream.finish (snapshot job state)
    log := route.log ++ [.event (snapshot job state)] }
  if state = .completed ∨ state = .failed then written.cleanup else written

end Route

inductive Action
  /-- `getJob` has answered. -/
  | job (answer : Option Job)
  /-- The client closes. -/
  | close
  /-- The keep-alive fires. -/
  | tick
  /-- The connection timeout fires. -/
  | timeout
  | message (channel : String) (payload : Json)
  /-- `subscribeToJob` has returned. -/
  | subscribed
  /-- `getState` has answered. -/
  | state (answer : QueueState)
  /-- What the handler waits for has failed. -/
  | fail
  /-- `unsubscribe` has returned. -/
  | unsubscribed

/-- The handler fails. The error handler answers before the headers are sent, and afterwards has
nothing to write: Express destroys the socket. -/
def failed (route : Route) : Option Route :=
  match route.stream.handler with
  | .loading => some { route with
      stream := { route.stream with handler := .done }, log := route.log ++ [.internalError] }
  | .subscribing _ | .reading _ =>
    some { route with stream := { route.stream with handler := .done } }
  | _ => none

def step (route : Route) : Action → Option Route
  | .job answer =>
    match route.stream.handler with
    | .loading => some { route with
        stream := (route.stream.onJob answer).1
        log := route.log ++ [if answer.isSome then .headers else .notFound] }
    | _ => none
  | .close =>
    if route.gone then none
    else if route.attached then some { route with gone := true }.cleanup
    else some { route with gone := true }
  | .tick =>
    if route.stream.timers then some { route with log := route.log ++ [.comment] } else none
  | .timeout => if route.stream.timers then some route.cleanup else none
  | .message channel payload =>
    if route.stream.listening then
      match Events.handler route.stream.jobId channel (some payload) with
      | some event => some (route.onEvent event)
      | none => some route
    else none
  | .subscribed =>
    match route.stream.handler with
    | .subscribing _ => some { route with stream := route.stream.onSubscribed }
    | _ => none
  | .state answer =>
    match route.stream.handler with
    | .reading job => some (route.onState job answer)
    | _ => none
  | .fail => failed route
  | .unsubscribed =>
    if route.unsubscribing then some { route with
      stream := route.stream.onUnsubscribed, unsubscribing := false, log := route.log ++ [.ended] }
    else none

/-- A request for the events of a job, before its handler has called anything. -/
def requested (jobId : String) : Route := { stream := { jobId := jobId } }

def system (jobId : String) : System Route Action := ⟨requested jobId, step⟩

/-! ### What a step can do -/

/-- Every step, with what it needs and where it leads. -/
inductive Step (route : Route) : Action → Route → Prop
  | job (answer : Option Job) (hloading : route.stream.handler = .loading) :
    Step route (.job answer) { route with
      stream := (route.stream.onJob answer).1
      log := route.log ++ [if answer.isSome then .headers else .notFound] }
  | close (hattached : route.attached = true) :
    Step route .close { route with gone := true }.cleanup
  /-- Nobody listens yet. -/
  | closeEarly (hattached : ¬ route.attached = true) :
    Step route .close { route with gone := true }
  | tick (htimers : route.stream.timers = true) :
    Step route .tick { route with log := route.log ++ [.comment] }
  | timeout (htimers : route.stream.timers = true) : Step route .timeout route.cleanup
  | event {channel : String} {payload : Json} {event : JobEvent}
    (hlistening : route.stream.listening = true)
    (hevent : Events.handler route.stream.jobId channel (some payload) = some event) :
    Step route (.message channel payload) (route.onEvent event)
  /-- A message that is not for this job, or is no event. -/
  | passOver {channel : String} {payload : Json} (hlistening : route.stream.listening = true)
    (hevent : Events.handler route.stream.jobId channel (some payload) = none) :
    Step route (.message channel payload) route
  | subscribed {job : Job} (hsubscribing : route.stream.handler = .subscribing job) :
    Step route .subscribed { route with
      stream := { route.stream with handler := .reading job, hasUnsubscribe := true } }
  | state {job : Job} (answer : QueueState) (hreading : route.stream.handler = .reading job) :
    Step route (.state answer) (route.onState job answer)
  | failEarly (hloading : route.stream.handler = .loading) :
    Step route .fail { route with
      stream := { route.stream with handler := .done }, log := route.log ++ [.internalError] }
  /-- `subscribeToJob` or `getState` fails. -/
  | fail (hloaded : route.stream.handler ≠ .loading) :
    Step route .fail { route with stream := { route.stream with handler := .done } }
  | unsubscribed (hwaiting : route.unsubscribing = true) :
    Step route .unsubscribed { route with
      stream := route.stream.onUnsubscribed, unsubscribing := false, log := route.log ++ [.ended] }

theorem step_cases {route after : Route} {action : Action}
    (h : step route action = some after) : Step route action after := by
  cases action with
  | job answer =>
    simp only [step] at h
    split at h
    · rename_i hloading
      rw [← Option.some.inj h]
      exact .job answer hloading
    · cases h
  | close =>
    simp only [step] at h
    split_ifs at h with hgone hattached
    · rw [← Option.some.inj h]
      exact .close hattached
    · rw [← Option.some.inj h]
      exact .closeEarly hattached
  | tick =>
    simp only [step] at h
    split_ifs at h with htimers
    rw [← Option.some.inj h]
    exact .tick htimers
  | timeout =>
    simp only [step] at h
    split_ifs at h with htimers
    rw [← Option.some.inj h]
    exact .timeout htimers
  | message channel payload =>
    simp only [step] at h
    split_ifs at h with hlistening
    split at h
    · rename_i event hevent
      rw [← Option.some.inj h]
      exact .event hlistening hevent
    · rename_i hevent
      rw [← Option.some.inj h]
      exact .passOver hlistening hevent
  | subscribed =>
    simp only [step] at h
    split at h
    · rename_i job hsubscribing
      rw [← Option.some.inj h, Stream.onSubscribed, hsubscribing]
      exact .subscribed hsubscribing
    · cases h
  | state answer =>
    simp only [step] at h
    split at h
    · rename_i job hreading
      rw [← Option.some.inj h]
      exact .state answer hreading
    · cases h
  | fail =>
    simp only [step, failed] at h
    split at h
    · rename_i hloading
      rw [← Option.some.inj h]
      exact .failEarly hloading
    · rename_i job hsubscribing
      rw [← Option.some.inj h]
      exact .fail (by simp [hsubscribing])
    · rename_i job hreading
      rw [← Option.some.inj h]
      exact .fail (by simp [hreading])
    · cases h
  | unsubscribed =>
    simp only [step] at h
    split_ifs at h with hwaiting
    rw [← Option.some.inj h]
    exact .unsubscribed hwaiting

/-! ### Every step follows the handler -/

/-- What the handler and its callbacks make of the stream. -/
def follow (stream : Stream) : Action → Stream
  | .job answer => (stream.onJob answer).1
  | .close => if stream.timers || stream.closed then stream.cleanup.1 else stream
  | .tick => stream
  | .timeout => stream.cleanup.1
  | .message channel payload => (stream.onMessage channel payload).1
  | .subscribed => stream.onSubscribed
  | .state answer => (stream.onState answer).writeSnapshot.1
  | .fail => { stream with handler := .done }
  | .unsubscribed => stream.onUnsubscribed

@[simp] theorem cleanup_stream (route : Route) : route.cleanup.stream = route.stream.cleanup.1 := by
  rw [Route.cleanup]
  split_ifs with hclosed
  · rw [Stream.cleanup, if_pos hclosed]
  · rfl
  · rfl

theorem onEvent_stream (route : Route) (event : JobEvent) :
    (route.onEvent event).stream = (route.stream.onEvent event).1 := by
  rw [Route.onEvent, Stream.onEvent]
  split_ifs
  · rfl
  · rw [cleanup_stream]
    rfl
  · rfl

theorem onState_stream {route : Route} {job : Job} (state : QueueState)
    (h : route.stream.handler = .reading job) :
    (route.onState job state).stream = (route.stream.onState state).writeSnapshot.1 := by
  have hanswered : route.stream.onState state =
      { route.stream with handler := .answered job state } := by
    rw [Stream.onState, h]
  rw [hanswered, Stream.writeSnapshot_eq rfl, Route.onState]
  split_ifs
  · rw [cleanup_stream]
    rfl
  · rfl

/-- The stream of a route goes where the handler takes it. -/
theorem step_stream {route after : Route} {action : Action} (h : step route action = some after) :
    after.stream = follow route.stream action := by
  cases step_cases h with
  | job answer => rfl
  | close hattached =>
    rw [cleanup_stream]
    exact (if_pos hattached).symm
  | closeEarly hattached => exact (if_neg hattached).symm
  | tick => rfl
  | timeout => exact cleanup_stream route
  | event hlistening hevent =>
    rw [onEvent_stream, follow, Stream.onMessage, if_pos hlistening, hevent]
  | passOver hlistening hevent => rw [follow, Stream.onMessage, if_pos hlistening, hevent]
  | subscribed hsubscribing => rw [follow, Stream.onSubscribed, hsubscribing]
  | state answer hreading => exact onState_stream answer hreading
  | failEarly => rfl
  | fail => rfl
  | unsubscribed => rfl

/-! ### What every step adds to the log -/

/-- What the start of cleanup adds. -/
def closing (stream : Stream) : List Mark :=
  if stream.closed then [] else .cleanup :: if stream.hasUnsubscribe then [] else [.ended]

/-- What a step adds. -/
def marks (route : Route) : Action → List Mark
  | .job answer => [if answer.isSome then .headers else .notFound]
  | .close => if route.attached then closing route.stream else []
  | .tick => [.comment]
  | .timeout => closing route.stream
  | .message channel payload =>
    match Events.handler route.stream.jobId channel (some payload) with
    | some event =>
      if route.stream.closed then []
      else .event event ::
        if event.state = .completed ∨ event.state = .failed then closing route.stream else []
    | none => []
  | .subscribed => []
  | .state answer =>
    match route.stream.handler with
    | .reading job => .event (snapshot job answer) ::
        if answer = .completed ∨ answer = .failed then closing route.stream else []
    | _ => []
  | .fail => match route.stream.handler with
    | .loading => [.internalError]
    | _ => []
  | .unsubscribed => [.ended]

theorem cleanup_log (route : Route) : route.cleanup.log = route.log ++ closing route.stream := by
  rw [Route.cleanup, closing]
  split_ifs
  · exact (List.append_nil _).symm
  · rfl
  · rfl

theorem onEvent_log (route : Route) (event : JobEvent) :
    (route.onEvent event).log = route.log ++
      if route.stream.closed then []
      else .event event ::
        if event.state = .completed ∨ event.state = .failed then closing route.stream else [] := by
  rw [Route.onEvent]
  split_ifs
  · exact (List.append_nil _).symm
  · rw [cleanup_log]
    exact List.append_assoc _ _ _
  · rfl

theorem onState_log (route : Route) (job : Job) (state : QueueState) :
    (route.onState job state).log = route.log ++ .event (snapshot job state) ::
      if state = .completed ∨ state = .failed then closing route.stream else [] := by
  rw [Route.onState]
  split_ifs
  · rw [cleanup_log]
    exact List.append_assoc _ _ _
  · rfl

theorem marks_fail {route : Route} (h : route.stream.handler ≠ .loading) :
    marks route .fail = [] := by
  rw [marks]
  split
  · rename_i hloading
    exact absurd hloading h
  · rfl

theorem step_log {route after : Route} {action : Action} (h : step route action = some after) :
    after.log = route.log ++ marks route action := by
  cases step_cases h with
  | job answer => rfl
  | close hattached => rw [cleanup_log, marks, if_pos hattached]
  | closeEarly hattached => rw [marks, if_neg hattached, List.append_nil]
  | tick => rfl
  | timeout => exact cleanup_log route
  | event hlistening hevent => rw [onEvent_log, marks, hevent]
  | passOver hlistening hevent => rw [marks, hevent, List.append_nil]
  | subscribed => exact (List.append_nil _).symm
  | state answer hreading => rw [onState_log, marks, hreading]
  | failEarly hloading => rw [marks, hloading]
  | fail hloaded => rw [marks_fail hloaded, List.append_nil]
  | unsubscribed => rfl

/-! ### What holds in every run -/

/-- The log tells whether cleanup has begun; a response ends, and its timers are cleared, in cleanup
only; and before `getJob` has answered there is nothing to clean up. -/
structure Consistent (route : Route) : Prop where
  closed_iff : route.stream.closed = true ↔ .cleanup ∈ route.log
  ended : .ended ∈ route.log → route.stream.closed = true
  timers : route.stream.timers = true → route.stream.closed = false
  waiting : route.unsubscribing = true → route.stream.closed = true
  loading : route.stream.handler = .loading → route.stream.timers = false ∧
    route.stream.closed = false ∧ route.stream.listening = false

/-- A terminal event in the log has begun a cleanup. -/
def Settled (route : Route) : Prop :=
  ∀ mark ∈ route.log, mark.isTerminal = true → .cleanup ∈ route.log

theorem cleanup_closed (route : Route) : route.cleanup.stream.closed = true := by
  rw [cleanup_stream]
  exact route.stream.closed_cleanup

theorem cleanup_timers {route : Route} (h : Consistent route) :
    route.cleanup.stream.timers = false := by
  rw [cleanup_stream, Stream.cleanup]
  split_ifs with hclosed
  · by_contra htimers
    rw [h.timers (by simpa using htimers)] at hclosed
    cases hclosed
  · rfl
  · rfl

theorem Consistent.not_mem_of_open {route : Route} (h : Consistent route)
    (hopen : route.stream.closed = false) : .cleanup ∉ route.log ∧ .ended ∉ route.log := by
  constructor
  · intro hcleanup
    rw [h.closed_iff.mpr hcleanup] at hopen
    cases hopen
  · intro hended
    rw [h.ended hended] at hopen
    cases hopen

/-- Assumes: `getJob` has answered. Cleanup keeps the log and the stream in step. -/
theorem Consistent.cleanup {route : Route} (h : Consistent route)
    (hhandler : route.stream.handler ≠ .loading) : Consistent route.cleanup where
  closed_iff := by
    refine iff_of_true (cleanup_closed route) ?_
    rw [cleanup_log, closing]
    by_cases hclosed : route.stream.closed = true
    · exact List.mem_append_left _ (h.closed_iff.mp hclosed)
    · rw [if_neg hclosed]
      exact List.mem_append_right _ List.mem_cons_self
  ended := fun _ ↦ cleanup_closed route
  timers := fun htimers ↦ by
    rw [cleanup_timers h] at htimers
    cases htimers
  waiting := fun _ ↦ cleanup_closed route
  loading := fun hloading ↦ by
    rw [cleanup_stream, Stream.cleanup_handler] at hloading
    exact absurd hloading hhandler

/-- A step that writes and changes only where the handler stands. -/
theorem Consistent.of_same {route after : Route} (h : Consistent route) {new : List Mark}
    (hlog : after.log = route.log ++ new) (hnew : ∀ mark ∈ new, mark ≠ .cleanup ∧ mark ≠ .ended)
    (hclosed : after.stream.closed = route.stream.closed)
    (htimers : after.stream.timers = route.stream.timers)
    (hlistening : after.stream.listening = route.stream.listening)
    (hwaiting : after.unsubscribing = route.unsubscribing)
    (hhandler : after.stream.handler = .loading → route.stream.handler = .loading) :
    Consistent after where
  closed_iff := by
    rw [hclosed, hlog, h.closed_iff, List.mem_append]
    exact (or_iff_left fun hmem ↦ (hnew _ hmem).1 rfl).symm
  ended := fun hended ↦ by
    rw [hlog] at hended
    rw [hclosed]
    exact h.ended ((List.mem_append.mp hended).resolve_right fun hmem ↦ (hnew _ hmem).2 rfl)
  timers := by
    rw [htimers, hclosed]
    exact h.timers
  waiting := by
    rw [hwaiting, hclosed]
    exact h.waiting
  loading := fun hloading ↦ by
    rw [htimers, hclosed, hlistening]
    exact h.loading (hhandler hloading)

theorem Consistent.writeEvent {route : Route} (h : Consistent route) (event : JobEvent) :
    Consistent (route.writeEvent event) :=
  @Consistent.of_same _ _ h [.event event] rfl (by simp) rfl rfl rfl rfl id

/-- A request that is attached has been loaded. -/
theorem Consistent.loaded {route : Route} (h : Consistent route)
    (hattached : route.attached = true) : route.stream.handler ≠ .loading := by
  intro hloading
  rw [Route.attached, (h.loading hloading).1, (h.loading hloading).2.1] at hattached
  cases hattached

theorem Consistent.onEvent {route : Route} (h : Consistent route)
    (hhandler : route.stream.handler ≠ .loading) (event : JobEvent) :
    Consistent (route.onEvent event) := by
  rw [Route.onEvent]
  split_ifs
  · exact h
  · exact (h.writeEvent event).cleanup hhandler
  · exact h.writeEvent event

theorem Consistent.onState {route : Route} (h : Consistent route) (job : Job)
    (state : QueueState) : Consistent (route.onState job state) := by
  have hwritten : Consistent { route with
      stream := route.stream.finish (snapshot job state)
      log := route.log ++ [.event (snapshot job state)] } :=
    @Consistent.of_same _ _ h [.event (snapshot job state)] rfl (by simp) rfl rfl rfl rfl
      fun hdone ↦ by cases hdone
  rw [Route.onState]
  split_ifs
  · refine hwritten.cleanup ?_
    intro hdone
    cases hdone
  · exact hwritten

/-- The step lemma of consistency. -/
theorem Consistent.step {route after : Route} {action : Action} (h : Consistent route)
    (hstep : step route action = some after) : Consistent after := by
  cases step_cases hstep with
  | job answer hloading =>
    obtain ⟨htimers, hclosed, hlistening⟩ := h.loading hloading
    cases answer with
    | none =>
      exact @Consistent.of_same _ _ h [.notFound] rfl (by simp) rfl rfl rfl rfl
        fun hdone ↦ by cases hdone
    | some job =>
      refine ⟨?_, ?_, fun _ ↦ hclosed, h.waiting, fun hsubscribing ↦ by cases hsubscribing⟩
      · show route.stream.closed = true ↔ .cleanup ∈ route.log ++ [.headers]
        rw [h.closed_iff]
        simp
      · show .ended ∈ route.log ++ [.headers] → route.stream.closed = true
        intro hended
        exact h.ended (by simpa using hended)
  | close hattached =>
    refine Consistent.cleanup ?_ (h.loaded hattached)
    exact ⟨h.closed_iff, h.ended, h.timers, h.waiting, h.loading⟩
  | closeEarly => exact ⟨h.closed_iff, h.ended, h.timers, h.waiting, h.loading⟩
  | tick => exact @Consistent.of_same _ _ h [.comment] rfl (by simp) rfl rfl rfl rfl id
  | timeout htimers =>
    refine h.cleanup (h.loaded ?_)
    rw [Route.attached, htimers]
    rfl
  | event hlistening hevent =>
    refine h.onEvent (fun hloading ↦ ?_) _
    rw [(h.loading hloading).2.2] at hlistening
    cases hlistening
  | passOver => exact h
  | subscribed =>
    exact @Consistent.of_same _ _ h [] (List.append_nil _).symm (by simp) rfl rfl rfl rfl
      fun hreading ↦ by cases hreading
  | state answer hreading => exact h.onState _ _
  | failEarly =>
    exact @Consistent.of_same _ _ h [.internalError] rfl (by simp) rfl rfl rfl rfl
      fun hdone ↦ by cases hdone
  | fail =>
    exact @Consistent.of_same _ _ h [] (List.append_nil _).symm (by simp) rfl rfl rfl rfl
      fun hdone ↦ by cases hdone
  | unsubscribed hwaiting =>
    have hclosed := h.waiting hwaiting
    refine ⟨?_, fun _ ↦ hclosed, h.timers, fun _ ↦ hclosed, h.loading⟩
    show route.stream.closed = true ↔ .cleanup ∈ route.log ++ [.ended]
    rw [h.closed_iff]
    simp

theorem consistent_requested (jobId : String) : Consistent (requested jobId) where
  closed_iff := by simp [requested]
  ended := by simp [requested]
  timers := by simp [requested]
  waiting := by simp [requested]
  loading := fun _ ↦ ⟨rfl, rfl, rfl⟩

theorem settled_requested (jobId : String) : Settled (requested jobId) := by
  intro mark hmark
  cases hmark

theorem cleanup_mem_closing {stream : Stream} (h : ¬ stream.closed = true) :
    .cleanup ∈ closing stream := by
  rw [closing, if_neg h]
  exact List.mem_cons_self

theorem closing_not_terminal {stream : Stream} {mark : Mark} (h : mark ∈ closing stream) :
    mark.isTerminal = false := by
  unfold closing at h
  split_ifs at h
  · cases h
  · rw [List.mem_singleton.mp h]
    rfl
  · rcases List.mem_pair.mp h with rfl | rfl
    · rfl
    · rfl

/-- An event with what its state begins: when the event is terminal, cleanup is begun. -/
theorem cleanup_mem_of_terminal {stream : Stream} {event : JobEvent} {settled : Prop}
    [Decidable settled] (hsettled : (Mark.event event).isTerminal = true → settled)
    (hopen : ¬ stream.closed = true) {mark : Mark}
    (hmark : mark ∈ Mark.event event :: if settled then closing stream else [])
    (hterminal : mark.isTerminal = true) :
    .cleanup ∈ Mark.event event :: if settled then closing stream else [] := by
  rcases List.mem_cons.mp hmark with rfl | hlater
  · rw [if_pos (hsettled hterminal)]
    exact List.mem_cons_of_mem _ (cleanup_mem_closing hopen)
  · split_ifs at hlater with hset
    · rw [closing_not_terminal hlater] at hterminal
      cases hterminal
    · cases hlater

theorem settled_of_isTerminal {event : JobEvent} (h : (Mark.event event).isTerminal = true) :
    event.state = .completed ∨ event.state = .failed := by
  simpa [Mark.isTerminal] using h

theorem snapshot_settled {job : Job} {state : QueueState}
    (h : (Mark.event (snapshot job state)).isTerminal = true) :
    state = .completed ∨ state = .failed := by
  have hstate := settled_of_isTerminal h
  cases state <;> simp_all [snapshot]

/-- The step lemma of terminal events: the step that writes one begins cleanup, unless cleanup has
begun before. -/
theorem Settled.step {route after : Route} {action : Action} (hconsistent : Consistent route)
    (h : Settled route) (hstep : step route action = some after) : Settled after := by
  have hlog := step_log hstep
  intro mark hmark hterminal
  rw [hlog] at hmark ⊢
  rcases List.mem_append.mp hmark with hold | hnew
  · exact List.mem_append_left _ (h mark hold hterminal)
  · by_cases hopen : route.stream.closed = true
    · exact List.mem_append_left _ (hconsistent.closed_iff.mp hopen)
    · refine List.mem_append_right _ ?_
      unfold marks at hnew ⊢
      cases action with
      | job answer =>
        rw [List.mem_singleton.mp hnew] at hterminal
        cases answer <;> cases hterminal
      | close =>
        simp only at hnew
        split_ifs at hnew
        · rw [closing_not_terminal hnew] at hterminal
          cases hterminal
        · cases hnew
      | tick =>
        rw [List.mem_singleton.mp hnew] at hterminal
        cases hterminal
      | timeout =>
        rw [closing_not_terminal hnew] at hterminal
        cases hterminal
      | message channel payload =>
        simp only at hnew ⊢
        split at hnew
        · rw [if_neg hopen] at hnew ⊢
          exact cleanup_mem_of_terminal settled_of_isTerminal hopen hnew hterminal
        · cases hnew
      | subscribed => cases hnew
      | state answer =>
        simp only at hnew ⊢
        split at hnew
        · exact cleanup_mem_of_terminal snapshot_settled hopen hnew hterminal
        · cases hnew
      | fail =>
        simp only at hnew
        split at hnew
        · rw [List.mem_singleton.mp hnew] at hterminal
          cases hterminal
        · cases hnew
      | unsubscribed =>
        rw [List.mem_singleton.mp hnew] at hterminal
        cases hterminal

/-! ### When a stream ends cleanly -/

/-- Nothing is written after the start of cleanup or the end of the response, at most one terminal
event is written, and no event after it. -/
structure EndsCleanly (log : List Mark) : Prop where
  silent : log.Pairwise fun earlier later ↦
    later.IsWrite → earlier ≠ .cleanup ∧ earlier ≠ .ended
  once : (log.filter Mark.isTerminal).length ≤ 1
  last : log.Pairwise fun earlier later ↦ later.IsEvent → earlier.isTerminal = false

theorem Mark.IsEvent.isWrite {mark : Mark} (h : mark.IsEvent) : mark.IsWrite := by
  cases mark with
  | event sent => trivial
  | _ => exact h.elim

theorem Mark.isEvent_of_isTerminal {mark : Mark} (h : mark.isTerminal = true) : mark.IsEvent := by
  cases mark with
  | event sent => trivial
  | _ => cases h

/-- When no event follows a terminal one, there is at most one. -/
theorem length_terminal_le {log : List Mark}
    (h : log.Pairwise fun earlier later ↦ later.IsEvent → earlier.isTerminal = false) :
    (log.filter Mark.isTerminal).length ≤ 1 := by
  induction h with
  | nil => exact Nat.zero_le 1
  | @cons mark rest hmark _ ih =>
    by_cases hterminal : mark.isTerminal = true
    · have hrest : rest.filter Mark.isTerminal = [] := by
        refine List.filter_eq_nil_iff.mpr fun later hlater hagain ↦ ?_
        rw [hmark later hlater (Mark.isEvent_of_isTerminal hagain)] at hterminal
        cases hterminal
      rw [List.filter_cons_of_pos hterminal, hrest]
      exact Nat.le_refl 1
    · rw [List.filter_cons_of_neg hterminal]
      exact ih

/-- What is appended to a clean log. Assumes: nothing is written after the first of it. -/
theorem endsCleanly_append_cons {log rest : List Mark} {mark : Mark}
    (hrest : ∀ later ∈ rest, ¬ later.IsWrite) :
    EndsCleanly (log ++ mark :: rest) ↔
      EndsCleanly log ∧ (mark.IsWrite → .cleanup ∉ log ∧ .ended ∉ log) ∧
        (mark.IsEvent → ∀ earlier ∈ log, earlier.isTerminal = false) := by
  constructor
  · intro h
    obtain ⟨hsilent, -, hcross⟩ := List.pairwise_append.mp h.silent
    obtain ⟨hlast, -, hterminal⟩ := List.pairwise_append.mp h.last
    refine ⟨⟨hsilent, length_terminal_le hlast, hlast⟩, fun hwrite ↦ ?_,
      fun hevent earlier hmem ↦ ?_⟩
    · constructor
      · intro hmem
        exact (hcross _ hmem mark List.mem_cons_self hwrite).1 rfl
      · intro hmem
        exact (hcross _ hmem mark List.mem_cons_self hwrite).2 rfl
    · exact hterminal earlier hmem mark List.mem_cons_self hevent
  · rintro ⟨h, hwrite, hevent⟩
    have hlast : (log ++ mark :: rest).Pairwise
        fun earlier later ↦ later.IsEvent → earlier.isTerminal = false := by
      refine List.pairwise_append.mpr
        ⟨h.last, ?_, fun earlier hearlier later hlater hlaterEvent ↦ ?_⟩
      · refine List.pairwise_cons.mpr ⟨fun later hlater hagain ↦
          absurd hagain.isWrite (hrest later hlater), ?_⟩
        exact List.pairwise_of_forall_mem_list fun earlier _ later hlater hagain ↦
          absurd hagain.isWrite (hrest later hlater)
      · rcases List.mem_cons.mp hlater with rfl | hlater
        · exact hevent hlaterEvent earlier hearlier
        · exact absurd hlaterEvent.isWrite (hrest later hlater)
    refine ⟨?_, length_terminal_le hlast, hlast⟩
    refine List.pairwise_append.mpr
      ⟨h.silent, ?_, fun earlier hearlier later hlater hlaterWrite ↦ ?_⟩
    · refine List.pairwise_cons.mpr ⟨fun later hlater hagain ↦
        absurd hagain (hrest later hlater), ?_⟩
      exact List.pairwise_of_forall_mem_list fun earlier _ later hlater hagain ↦
        absurd hagain (hrest later hlater)
    · rcases List.mem_cons.mp hlater with rfl | hlater
      · obtain ⟨hcleanup, hended⟩ := hwrite hlaterWrite
        exact ⟨fun heq ↦ hcleanup (heq ▸ hearlier), fun heq ↦ hended (heq ▸ hearlier)⟩
      · exact absurd hlaterWrite (hrest later hlater)

/-- What writes nothing does not spoil a log. -/
theorem endsCleanly_append_of_silent {log new : List Mark} (hnew : ∀ mark ∈ new, ¬ mark.IsWrite) :
    EndsCleanly (log ++ new) ↔ EndsCleanly log := by
  cases new with
  | nil => rw [List.append_nil]
  | cons mark rest =>
    have hmark := hnew mark List.mem_cons_self
    rw [endsCleanly_append_cons fun later hlater ↦ hnew later (List.mem_cons_of_mem mark hlater)]
    refine and_iff_left ⟨fun hwrite ↦ absurd hwrite hmark, fun hevent ↦ ?_⟩
    exact absurd hevent.isWrite hmark

theorem endsCleanly_concat_of_silent {log : List Mark} {mark : Mark} (hmark : ¬ mark.IsWrite) :
    EndsCleanly (log ++ [mark]) ↔ EndsCleanly log :=
  endsCleanly_append_of_silent fun _ hlater ↦ List.mem_singleton.mp hlater ▸ hmark

theorem closing_silent (stream : Stream) : ∀ mark ∈ closing stream, ¬ mark.IsWrite := by
  intro mark hmark
  unfold closing at hmark
  split_ifs at hmark
  · cases hmark
  · obtain rfl := List.mem_singleton.mp hmark
    exact id
  · rcases List.mem_pair.mp hmark with rfl | rfl
    · exact id
    · exact id

/-- The snapshot finds the stream open. -/
def SnapshotOpen (route : Route) : Action → Prop
  | .state _ => route.stream.closed = false
  | _ => True

/-- An event with what its state begins, on a stream that is open. -/
theorem endsCleanly_event {route : Route} (hconsistent : Consistent route)
    (hsettled : Settled route) {event : JobEvent} {settled : Prop} [Decidable settled] :
    EndsCleanly (route.log ++ .event event :: if settled then closing route.stream else []) ↔
      EndsCleanly route.log ∧ route.stream.closed = false := by
  have hrest : ∀ later ∈ (if settled then closing route.stream else []), ¬ later.IsWrite := by
    split_ifs
    · exact closing_silent route.stream
    · intro later hlater
      cases hlater
  rw [endsCleanly_append_cons hrest]
  refine and_congr_right fun _ ↦
    ⟨fun h ↦ ?_, fun hopen ↦
      ⟨fun _ ↦ hconsistent.not_mem_of_open hopen, fun _ earlier hmem ↦ ?_⟩⟩
  · by_contra hclosed
    exact (h.1 trivial).1 (hconsistent.closed_iff.mp (by simpa using hclosed))
  · by_contra hterminal
    have hcleanup := hsettled earlier hmem (by simpa using hterminal)
    exact (hconsistent.not_mem_of_open hopen).1 hcleanup

/-- One step spoils the log exactly when the snapshot finds the stream closed. -/
theorem endsCleanly_step {route after : Route} {action : Action} (hconsistent : Consistent route)
    (hsettled : Settled route) (hstep : step route action = some after) :
    EndsCleanly after.log ↔ EndsCleanly route.log ∧ SnapshotOpen route action := by
  rw [step_log hstep]
  cases step_cases hstep with
  | job answer =>
    refine (endsCleanly_concat_of_silent ?_).trans (and_iff_left trivial).symm
    cases answer <;> exact id
  | close hattached =>
    rw [marks, if_pos hattached, endsCleanly_append_of_silent (closing_silent _)]
    exact (and_iff_left trivial).symm
  | closeEarly hattached =>
    rw [marks, if_neg hattached, List.append_nil]
    exact (and_iff_left trivial).symm
  | tick htimers =>
    have hopen := hconsistent.timers htimers
    rw [marks, endsCleanly_append_cons (by simp)]
    refine and_congr_right fun _ ↦ iff_of_true ?_ trivial
    exact ⟨fun _ ↦ hconsistent.not_mem_of_open hopen, fun hevent ↦ hevent.elim⟩
  | timeout =>
    rw [marks, endsCleanly_append_of_silent (closing_silent _)]
    exact (and_iff_left trivial).symm
  | event hlistening hevent =>
    simp only [marks, hevent]
    by_cases hopen : route.stream.closed = true
    · rw [if_pos hopen, List.append_nil]
      exact (and_iff_left trivial).symm
    · rw [if_neg hopen, endsCleanly_event hconsistent hsettled]
      exact and_congr_right fun _ ↦ iff_of_true (by simpa using hopen) trivial
  | passOver hlistening hevent =>
    simp only [marks, hevent, List.append_nil]
    exact (and_iff_left trivial).symm
  | subscribed =>
    rw [marks, List.append_nil]
    exact (and_iff_left trivial).symm
  | state answer hreading =>
    rw [marks, hreading]
    exact endsCleanly_event hconsistent hsettled
  | failEarly hloading =>
    rw [marks, hloading]
    exact (endsCleanly_concat_of_silent id).trans (and_iff_left trivial).symm
  | fail hloaded =>
    rw [marks_fail hloaded, List.append_nil]
    exact (and_iff_left trivial).symm
  | unsubscribed => exact (endsCleanly_concat_of_silent id).trans (and_iff_left trivial).symm

/-- An event stream ends cleanly, in every run and at every moment of it, exactly when the snapshot
has found the stream open: when no client close, timeout or terminal message has begun cleanup
before `getState` answered. -/
theorem endsCleanly_iff (jobId : String) (actions : List Action) (route : Route)
    (hrun : (system jobId).run actions = some route) :
    EndsCleanly route.log ↔ (system jobId).Meets SnapshotOpen actions := by
  have hstart : EndsCleanly (system jobId).start.log :=
    ⟨List.Pairwise.nil, Nat.zero_le 1, List.Pairwise.nil⟩
  refine (System.iff_meets (fun route ↦ Consistent route ∧ Settled route)
    (fun route ↦ EndsCleanly route.log) ⟨consistent_requested jobId, settled_requested jobId⟩
    hstart ?_ hrun).2
  rintro before action after ⟨hconsistent, hsettled⟩ hstep
  exact ⟨⟨hconsistent.step hstep, hsettled.step hconsistent hstep⟩,
    endsCleanly_step hconsistent hsettled hstep⟩

/-- A queued job. -/
def exampleJob : Job := { id := "1", operation := "csv.validate" }

/-- The run for a job that has settled before the snapshot. -/
theorem endsCleanly_settled :
    ∃ route, (system "1").run [.job (some exampleJob), .subscribed, .state .completed,
      .unsubscribed] = some route ∧ EndsCleanly route.log := by
  have hloaded : (system "1").Meets SnapshotOpen [.job (some exampleJob), .subscribed] := by
    refine System.meets_of_forall fun action haction route ↦ ?_
    rcases List.mem_pair.mp haction with rfl | rfl
    · trivial
    · trivial
  have hsnapshot : (system "1").Meets SnapshotOpen
      ([.job (some exampleJob), .subscribed] ++ [.state .completed]) := by
    refine hloaded.concat fun route hroute ↦ ?_
    rw [← Option.some.inj hroute]
    rfl
  have hmeets : (system "1").Meets SnapshotOpen
      ([.job (some exampleJob), .subscribed, .state .completed] ++ [.unsubscribed]) :=
    hsnapshot.concat fun _ _ ↦ trivial
  exact ⟨_, rfl, (endsCleanly_iff "1" [.job (some exampleJob), .subscribed, .state .completed,
    .unsubscribed] _ rfl).mpr hmeets⟩

/-- The client closes while the subscription is under way, and the snapshot is written after the
end. -/
theorem not_endsCleanly_closed :
    ∃ route, (system "1").run [.job (some exampleJob), .close, .subscribed, .state .active] =
      some route ∧ ¬ EndsCleanly route.log := by
  refine ⟨_, rfl, fun h ↦ ?_⟩
  have hsilent : List.Pairwise
      (fun earlier later : Mark ↦ later.IsWrite → earlier ≠ .cleanup ∧ earlier ≠ .ended)
      ([.headers, .cleanup, .ended] ++ [.event (snapshot exampleJob .active)]) := h.silent
  have hwritten := (List.pairwise_append.mp hsilent).2.2
  exact (hwritten .cleanup (by simp) _ List.mem_cons_self trivial).1 rfl

end FileForge.Jobs.StreamLifecycle
