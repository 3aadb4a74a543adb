import FileForge.Jobs.StreamLifecycle

/-!
# The listeners on the shared subscriber

Any number of event streams on one subscriber, each a `Route` that takes its own steps in any order.
A listener is registered when the job has been loaded and removed by `unsubscribe`, which cleanup
can only call when `subscribeToJob` has returned it.

`released_step` is the step that leaves a listener behind: cleanup begins without an unsubscribe
function, because the client closed, the connection timed out or a terminal message came while the
subscription was under way, or after it had failed. `unsubscribed_iff_meets` is the same for any
history of streams: there are as many listeners as open streams exactly when no step was of this
kind.
-/

set_option autoImplicit false
set_option relaxedAutoImplicit false

namespace FileForge.Jobs.StreamListeners

open Foundation.Execution Shared.Contract EventStream StreamLifecycle

/-! ### One stream -/

def isHeaders : Mark → Bool
  | .headers => true
  | _ => false

/-- The headers have been sent and cleanup has not begun. -/
def isOpen (route : Route) : Bool := route.log.any isHeaders && !route.stream.closed

/-- The step begins cleanup. -/
def BeginsCleanup (route : Route) : Action → Prop
  | .close => route.stream.timers = true
  | .timeout => True
  | .message channel payload => route.stream.closed = false ∧
      ∃ event, Events.handler route.stream.jobId channel (some payload) = some event ∧
        (event.state = .completed ∨ event.state = .failed)
  | .state answer => route.stream.closed = false ∧ (answer = .completed ∨ answer = .failed)
  | _ => False

/-- Cleanup begins with the unsubscribe function there. -/
def Unsubscribable (route : Route) (action : Action) : Prop :=
  BeginsCleanup route action → route.stream.hasUnsubscribe = true

/-- The listener is not left behind. -/
def Released (route : Route) : Prop :=
  route.stream.listening = true → route.stream.closed = false

/-- What holds of the listener and the timers in every run. -/
structure Listening (route : Route) : Prop where
  /-- The timers are armed while the stream is open. -/
  timers_iff : route.stream.timers = true ↔ isOpen route = true
  /-- An open stream has its listener. -/
  opened : isOpen route = true → route.stream.listening = true
  /-- The listener is registered after the headers. -/
  headers : route.stream.listening = true → route.log.any isHeaders = true
  loading : route.stream.handler = .loading → route.stream.listening = false ∧
    route.stream.closed = false ∧ route.stream.timers = false
  /-- The snapshot comes after the subscription. -/
  reading : ∀ job, route.stream.handler = .reading job → route.stream.hasUnsubscribe = true

theorem hasUnsubscribe_cleanup (stream : Stream) :
    stream.cleanup.1.hasUnsubscribe = stream.hasUnsubscribe := by
  rw [Stream.cleanup]
  split_ifs <;> rfl

/-- Cleanup removes the listener when it has the unsubscribe function. -/
theorem listening_cleanup {stream : Stream} (h : stream.closed = false) :
    stream.cleanup.1.listening = (!stream.hasUnsubscribe && stream.listening) := by
  rw [Stream.cleanup, if_neg (by rw [h]; exact Bool.false_ne_true)]
  cases hunsubscribe : stream.hasUnsubscribe with
  | true => rfl
  | false => rfl

theorem listening_of_cleanup {stream : Stream} (h : stream.cleanup.1.listening = true) :
    stream.listening = true := by
  by_cases hclosed : stream.closed = true
  · rwa [Stream.cleanup, if_pos hclosed] at h
  · rw [listening_cleanup (by simpa using hclosed), Bool.and_eq_true] at h
    exact h.2

theorem isOpen_eq_false_of_closed {route : Route} (h : route.stream.closed = true) :
    isOpen route = false := by
  rw [isOpen, h, Bool.not_true, Bool.and_false]

/-- Assumes: `getJob` has answered. -/
theorem Listening.cleanup {route : Route} (h : Listening route)
    (hhandler : route.stream.handler ≠ .loading) : Listening route.cleanup where
  timers_iff := by
    have hafter : ¬ isOpen route.cleanup = true := by
      rw [isOpen_eq_false_of_closed (cleanup_closed route)]
      exact Bool.false_ne_true
    refine iff_of_false ?_ hafter
    rw [cleanup_stream, Stream.cleanup]
    split_ifs with hbefore
    · intro htimers
      rw [h.timers_iff, isOpen_eq_false_of_closed hbefore] at htimers
      cases htimers
    · exact not_false
    · exact Bool.false_ne_true
  opened := fun hopen ↦ by
    rw [isOpen_eq_false_of_closed (cleanup_closed route)] at hopen
    cases hopen
  headers := fun hlistening ↦ by
    rw [cleanup_stream] at hlistening
    rw [cleanup_log, List.any_append, h.headers (listening_of_cleanup hlistening), Bool.true_or]
  loading := fun hloading ↦ by
    rw [cleanup_stream, Stream.cleanup_handler] at hloading
    exact absurd hloading hhandler
  reading := fun job hreading ↦ by
    rw [cleanup_stream, Stream.cleanup_handler] at hreading
    rw [cleanup_stream, hasUnsubscribe_cleanup]
    exact h.reading job hreading

/-- A step that neither begins cleanup nor registers the listener. -/
theorem Listening.of_same {route after : Route} (h : Listening route)
    (hheaders : after.log.any isHeaders = route.log.any isHeaders)
    (hclosed : after.stream.closed = route.stream.closed)
    (htimers : after.stream.timers = route.stream.timers)
    (hlistening : after.stream.listening = route.stream.listening)
    (hloading : after.stream.handler = .loading → route.stream.handler = .loading)
    (hreading : ∀ job, after.stream.handler = .reading job →
      after.stream.hasUnsubscribe = true) : Listening after where
  timers_iff := by
    rw [htimers, isOpen, hheaders, hclosed]
    exact h.timers_iff
  opened := by
    rw [isOpen, hheaders, hclosed, hlistening]
    exact h.opened
  headers := by
    rw [hlistening, hheaders]
    exact h.headers
  loading := by
    rw [hlistening, hclosed, htimers]
    exact fun hafter ↦ h.loading (hloading hafter)
  reading := hreading

theorem listening_requested (jobId : String) : Listening (requested jobId) where
  timers_iff := by simp [requested, isOpen]
  opened := by simp [requested, isOpen]
  headers := by simp [requested]
  loading := fun _ ↦ ⟨rfl, rfl, rfl⟩
  reading := fun job hreading ↦ by cases hreading

theorem any_isHeaders_append {mark : Mark} (log : List Mark) (h : isHeaders mark = false) :
    (log ++ [mark]).any isHeaders = log.any isHeaders := by
  rw [List.any_append, List.any_cons, h, List.any_nil, Bool.or_false, Bool.or_false]

theorem Listening.writeEvent {route : Route} (h : Listening route) (event : JobEvent) :
    Listening (route.writeEvent event) :=
  h.of_same (any_isHeaders_append _ rfl) rfl rfl rfl id h.reading

theorem Listening.loaded {route : Route} (h : Listening route)
    (hattached : route.attached = true) : route.stream.handler ≠ .loading := by
  intro hloading
  rw [Route.attached, (h.loading hloading).2.2, (h.loading hloading).2.1] at hattached
  cases hattached

theorem Listening.onEvent {route : Route} (h : Listening route)
    (hhandler : route.stream.handler ≠ .loading) (event : JobEvent) :
    Listening (route.onEvent event) := by
  rw [Route.onEvent]
  split_ifs
  · exact h
  · exact (h.writeEvent event).cleanup hhandler
  · exact h.writeEvent event

theorem Listening.onState {route : Route} (h : Listening route) (job : Queue.Job)
    (state : Queue.QueueState) : Listening (route.onState job state) := by
  have hwritten : Listening { route with
      stream := route.stream.finish (snapshot job state)
      log := route.log ++ [.event (snapshot job state)] } :=
    h.of_same (any_isHeaders_append _ rfl) rfl rfl rfl (fun hdone ↦ by cases hdone)
      fun other hdone ↦ by cases hdone
  rw [Route.onState]
  split_ifs
  · refine hwritten.cleanup ?_
    intro hdone
    cases hdone
  · exact hwritten

/-- The step lemma of listeners and timers. -/
theorem Listening.step {route after : Route} {action : Action} (h : Listening route)
    (hstep : step route action = some after) : Listening after := by
  cases step_cases hstep with
  | job answer hloading =>
    obtain ⟨hlistening, hclosed, htimers⟩ := h.loading hloading
    cases answer with
    | none =>
      exact h.of_same (any_isHeaders_append _ rfl) rfl rfl rfl (fun hdone ↦ by cases hdone)
        fun other hdone ↦ by cases hdone
    | some job =>
      have hheaders : (route.log ++ [Mark.headers]).any isHeaders = true := by
        rw [List.any_append]
        exact Bool.or_true _
      refine ⟨iff_of_true rfl ?_, fun _ ↦ rfl, fun _ ↦ hheaders,
        (fun hsubscribing ↦ by cases hsubscribing), fun other hsubscribing ↦ by cases hsubscribing⟩
      show ((route.log ++ [Mark.headers]).any isHeaders && !route.stream.closed) = true
      rw [hheaders, hclosed]
      rfl
  | close hattached =>
    refine Listening.cleanup ?_ (h.loaded hattached)
    exact ⟨h.timers_iff, h.opened, h.headers, h.loading, h.reading⟩
  | closeEarly => exact ⟨h.timers_iff, h.opened, h.headers, h.loading, h.reading⟩
  | tick => exact h.of_same (any_isHeaders_append _ rfl) rfl rfl rfl id h.reading
  | timeout htimers =>
    refine h.cleanup (h.loaded ?_)
    rw [Route.attached, htimers]
    rfl
  | event hlistening hevent =>
    refine h.onEvent (fun hloading ↦ ?_) _
    rw [(h.loading hloading).1] at hlistening
    cases hlistening
  | passOver => exact h
  | subscribed =>
    exact h.of_same rfl rfl rfl rfl (fun hreading ↦ by cases hreading) fun _ _ ↦ rfl
  | state answer hreading => exact h.onState _ _
  | failEarly =>
    exact h.of_same (any_isHeaders_append _ rfl) rfl rfl rfl (fun hdone ↦ by cases hdone)
      fun other hdone ↦ by cases hdone
  | fail =>
    exact h.of_same rfl rfl rfl rfl (fun hdone ↦ by cases hdone) fun other hdone ↦ by cases hdone
  | unsubscribed => exact h.of_same (any_isHeaders_append _ rfl) rfl rfl rfl id h.reading

/-! ### What leaves a listener behind -/

/-- Cleanup of an open stream releases its listener when it has the unsubscribe function. -/
theorem released_cleanup {route : Route} (hclosed : route.stream.closed = false)
    (hlistening : route.stream.listening = true) :
    Released route.cleanup ↔ route.stream.hasUnsubscribe = true := by
  rw [Released, cleanup_stream, Stream.closed_cleanup, listening_cleanup hclosed, hlistening]
  cases route.stream.hasUnsubscribe with
  | true => simp
  | false => simp

theorem released_of_closed_eq_false {route : Route} (h : route.stream.closed = false) :
    Released route := fun _ ↦ h

/-- With the unsubscribe function there, cleanup leaves no listener behind. -/
theorem released_cleanup_of_hasUnsubscribe {route : Route}
    (h : route.stream.hasUnsubscribe = true) : Released route.cleanup ↔ Released route := by
  by_cases hclosed : route.stream.closed = true
  · rw [Route.cleanup, if_pos hclosed]
  · have hopen : route.stream.closed = false := by simpa using hclosed
    refine iff_of_true (fun hlistening ↦ ?_) (released_of_closed_eq_false hopen)
    rw [cleanup_stream, listening_cleanup hopen, h] at hlistening
    cases hlistening

theorem released_onEvent {route : Route} (hlistening : route.stream.listening = true)
    (event : JobEvent) :
    Released (route.onEvent event) ↔ Released route ∧ (route.stream.closed = false ∧
      (event.state = .completed ∨ event.state = .failed) →
        route.stream.hasUnsubscribe = true) := by
  rw [Route.onEvent]
  split_ifs with hclosed hterminal
  · refine (and_iff_left fun hopen ↦ ?_).symm
    rw [hclosed] at hopen
    cases hopen.1
  · have hopen : route.stream.closed = false := by simpa using hclosed
    have hcleanup : Released (route.writeEvent event).cleanup ↔
        route.stream.hasUnsubscribe = true := released_cleanup hopen hlistening
    rw [hcleanup, and_iff_right (released_of_closed_eq_false hopen)]
    exact ⟨fun h _ ↦ h, fun h ↦ h ⟨hopen, hterminal⟩⟩
  · refine (and_iff_left fun hopen ↦ ?_).symm
    exact absurd hopen.2 hterminal

/-- One step leaves the listener behind exactly when it begins cleanup without the unsubscribe
function. -/
theorem released_step {route after : Route} {action : Action} (h : Listening route)
    (hconsistent : Consistent route) (hstep : step route action = some after) :
    Released after ↔ Released route ∧ Unsubscribable route action := by
  have hopened : route.stream.timers = true → route.stream.listening = true :=
    fun htimers ↦ h.opened (h.timers_iff.mp htimers)
  cases step_cases hstep with
  | job answer hloading =>
    obtain ⟨hlistening, hclosed, htimers⟩ := h.loading hloading
    refine iff_of_true (fun _ ↦ ?_) ⟨fun _ ↦ hclosed, fun hbegins ↦ hbegins.elim⟩
    cases answer with
    | none => exact hclosed
    | some job => exact hclosed
  | close hattached =>
    by_cases htimers : route.stream.timers = true
    · have hclosed := hconsistent.timers htimers
      rw [@released_cleanup { route with gone := true } hclosed (hopened htimers),
        and_iff_right (released_of_closed_eq_false hclosed)]
      exact ⟨fun hunsubscribe _ ↦ hunsubscribe, fun hunsubscribe ↦ hunsubscribe htimers⟩
    · have hclosed : route.stream.closed = true := by
        rw [Route.attached, Bool.or_eq_true] at hattached
        exact hattached.resolve_left htimers
      have hsame : ({ route with gone := true } : Route).cleanup = { route with gone := true } := by
        rw [Route.cleanup, if_pos hclosed]
      rw [hsame]
      exact (and_iff_left fun hbegins ↦ absurd hbegins htimers).symm
  | closeEarly hattached =>
    refine (and_iff_left fun hbegins ↦ ?_).symm
    rw [Route.attached, show route.stream.timers = true from hbegins] at hattached
    exact absurd rfl hattached
  | tick => exact (and_iff_left fun hbegins ↦ hbegins.elim).symm
  | timeout htimers =>
    have hclosed := hconsistent.timers htimers
    rw [released_cleanup hclosed (hopened htimers),
      and_iff_right (released_of_closed_eq_false hclosed)]
    exact ⟨fun hunsubscribe _ ↦ hunsubscribe, fun hunsubscribe ↦ hunsubscribe trivial⟩
  | @event channel payload event hlistening hevent =>
    rw [released_onEvent hlistening]
    refine and_congr_right fun _ ↦ ⟨fun himp hbegins ↦ ?_, fun himp hterminal ↦ ?_⟩
    · obtain ⟨hopen, other, hother, hterminal⟩ := hbegins
      obtain rfl := Option.some.inj (hevent.symm.trans hother)
      exact himp ⟨hopen, hterminal⟩
    · exact himp ⟨hterminal.1, event, hevent, hterminal.2⟩
  | passOver hlistening hevent =>
    refine (and_iff_left fun hbegins ↦ ?_).symm
    obtain ⟨-, other, hother, -⟩ := hbegins
    cases hevent.symm.trans hother
  | subscribed => exact (and_iff_left fun hbegins ↦ hbegins.elim).symm
  | @state job answer hreading =>
    have hunsubscribe := h.reading job hreading
    rw [and_iff_left (show Unsubscribable route (.state answer) from fun _ ↦ hunsubscribe),
      Route.onState]
    split_ifs
    · exact released_cleanup_of_hasUnsubscribe hunsubscribe
    · exact Iff.rfl
  | failEarly => exact (and_iff_left fun hbegins ↦ hbegins.elim).symm
  | fail => exact (and_iff_left fun hbegins ↦ hbegins.elim).symm
  | unsubscribed => exact (and_iff_left fun hbegins ↦ hbegins.elim).symm

/-! ### Any number of streams -/

/-- What can happen to the service: a request for the events of a job, or a step of a stream. -/
inductive ServiceAction
  | connect (jobId : String)
  | onStream (index : ℕ) (action : Action)

def serviceStep (routes : List Route) : ServiceAction → Option (List Route)
  | .connect jobId => some (routes ++ [requested jobId])
  | .onStream index action =>
    match routes[index]? with
    | some route => (step route action).map fun after ↦ routes.set index after
    | none => none

/-- A service that no client has asked for events yet. -/
def service : System (List Route) ServiceAction := ⟨[], serviceStep⟩

/-- The step of the service begins no cleanup without an unsubscribe function. -/
def ServiceUnsubscribable (routes : List Route) : ServiceAction → Prop
  | .connect _ => True
  | .onStream index action => ∀ route ∈ routes[index]?, Unsubscribable route action

/-- A stream that is closed and whose handler has finished has no listener and no timer. -/
def LeavesNothing (route : Route) : Prop :=
  route.stream.closed = true → route.stream.handler = .done →
    route.stream.listening = false ∧ route.stream.timers = false

/-- The listeners on the subscriber, and the open streams. -/
def listenerCount (routes : List Route) : ℕ := routes.countP fun route ↦ route.stream.listening

def openCount (routes : List Route) : ℕ := routes.countP isOpen

/-- What the listeners owe: no stream that has ended leaves one, or a timer, and there are as many
as open streams. -/
def Unsubscribed (routes : List Route) : Prop :=
  (∀ route ∈ routes, LeavesNothing route) ∧ listenerCount routes = openCount routes

/-- When one property implies another, as many have the one as the other exactly when they are the
same. -/
theorem countP_eq_iff {Item : Type*} {stronger weaker : Item → Bool} {items : List Item}
    (himp : ∀ item ∈ items, stronger item = true → weaker item = true) :
    items.countP weaker = items.countP stronger ↔
      ∀ item ∈ items, weaker item = true → stronger item = true := by
  induction items with
  | nil => simp
  | cons item rest ih =>
    have hrest := ih fun other hother ↦ himp other (List.mem_cons_of_mem item hother)
    have hle : rest.countP stronger ≤ rest.countP weaker :=
      List.countP_mono_left fun other hother ↦ himp other (List.mem_cons_of_mem item hother)
    rw [List.forall_mem_cons, ← hrest, List.countP_cons, List.countP_cons]
    have hitem := himp item List.mem_cons_self
    cases hweaker : weaker item with
    | false =>
      have hstronger : stronger item = false := by
        by_contra hne
        rw [hitem (by simpa using hne)] at hweaker
        cases hweaker
      simp [hstronger]
    | true =>
      cases hstronger : stronger item with
      | true => simp
      | false =>
        simp
        omega

/-- A listener without an open stream is one left behind. -/
theorem isOpen_of_released_iff {route : Route} (h : Listening route) :
    (route.stream.listening = true → isOpen route = true) ↔ Released route := by
  constructor
  · intro himp hlistening
    by_contra hclosed
    rw [isOpen_eq_false_of_closed (by simpa using hclosed)] at himp
    cases himp hlistening
  · intro hreleased hlistening
    rw [isOpen, h.headers hlistening, hreleased hlistening]
    rfl

/-- The listeners are as they should be exactly when none is left behind. -/
theorem unsubscribed_iff {routes : List Route} (h : ∀ route ∈ routes, Listening route) :
    Unsubscribed routes ↔ ∀ route ∈ routes, Released route := by
  have hcount : listenerCount routes = openCount routes ↔ ∀ route ∈ routes, Released route := by
    rw [listenerCount, openCount, countP_eq_iff fun route hroute ↦ (h route hroute).opened]
    exact forall₂_congr fun route hroute ↦ isOpen_of_released_iff (h route hroute)
  rw [Unsubscribed, hcount]
  refine and_iff_right_of_imp fun hreleased route hroute hclosed _ ↦ ⟨?_, ?_⟩
  · by_contra hlistening
    rw [hreleased route hroute (by simpa using hlistening)] at hclosed
    cases hclosed
  · by_contra htimers
    have hopen := (h route hroute).timers_iff.mp (by simpa using htimers)
    rw [isOpen_eq_false_of_closed hclosed] at hopen
    cases hopen

/-- A property of all streams when one of them has changed. Assumes: the changed one had it before
if it has it now. -/
theorem forall_mem_set_iff {Item : Type*} {property : Item → Prop} {items : List Item} {index : ℕ}
    {before after : Item} (hitem : items[index]? = some before)
    (himp : property after → property before) :
    (∀ item ∈ items.set index after, property item) ↔
      (∀ item ∈ items, property item) ∧ property after := by
  have hbound : index < items.length := (List.getElem?_eq_some_iff.mp hitem).1
  constructor
  · intro h
    have hafter : property after := h after (List.mem_set hbound after)
    refine ⟨fun item hmem ↦ ?_, hafter⟩
    obtain ⟨position, hposition⟩ := List.mem_iff_getElem?.mp hmem
    by_cases hsame : index = position
    · subst hsame
      obtain rfl := Option.some.inj (hitem.symm.trans hposition)
      exact himp hafter
    · refine h item (List.mem_iff_getElem?.mpr ⟨position, ?_⟩)
      rw [List.getElem?_set_ne hsame, hposition]
  · rintro ⟨hall, hafter⟩ item hmem
    rcases List.mem_or_eq_of_mem_set hmem with hold | rfl
    · exact hall item hold
    · exact hafter

/-- The step lemma of the service. -/
theorem serviceStep_spec {before after : List Route} {action : ServiceAction}
    (h : ∀ route ∈ before, Listening route ∧ Consistent route)
    (hstep : serviceStep before action = some after) :
    (∀ route ∈ after, Listening route ∧ Consistent route) ∧
      ((∀ route ∈ after, Released route) ↔
        (∀ route ∈ before, Released route) ∧ ServiceUnsubscribable before action) := by
  cases action with
  | connect jobId =>
    obtain rfl := Option.some.inj hstep
    constructor
    · intro route hroute
      rcases List.mem_append.mp hroute with hold | hnew
      · exact h route hold
      · rw [List.mem_singleton.mp hnew]
        exact ⟨listening_requested jobId, consistent_requested jobId⟩
    · rw [List.forall_mem_append, List.forall_mem_singleton]
      exact and_congr_right fun _ ↦ iff_of_true (fun _ ↦ rfl) trivial
  | onStream index action =>
    simp only [serviceStep] at hstep
    split at hstep
    · rename_i route hroute
      obtain ⟨next, hnext, rfl⟩ := Option.map_eq_some_iff.mp hstep
      have hmem : route ∈ before := List.mem_of_getElem? hroute
      obtain ⟨hlisten, hconsistent⟩ := h route hmem
      have hreleased := released_step hlisten hconsistent hnext
      constructor
      · intro other hother
        rcases List.mem_or_eq_of_mem_set hother with hold | rfl
        · exact h other hold
        · exact ⟨hlisten.step hnext, hconsistent.step hnext⟩
      · rw [forall_mem_set_iff hroute fun hnextReleased ↦ (hreleased.mp hnextReleased).1, hreleased]
        refine and_congr_right fun hall ↦ ?_
        rw [and_iff_right (hall route hmem)]
        show _ ↔ ∀ other ∈ before[index]?, Unsubscribable other action
        rw [hroute]
        exact ⟨fun hunsubscribable other hother ↦ Option.some.inj hother ▸ hunsubscribable,
          fun hunsubscribable ↦ hunsubscribable route rfl⟩
    · cases hstep

/-- Every exit path unsubscribes, after any history of streams, exactly when every cleanup has begun
with the unsubscribe function there: when no client closed, no connection timed out and no terminal
message came before `subscribeToJob` had returned, or after it had failed. -/
theorem unsubscribed_iff_meets (actions : List ServiceAction) (routes : List Route)
    (hrun : service.run actions = some routes) :
    Unsubscribed routes ↔ service.Meets ServiceUnsubscribable actions := by
  have hall := System.iff_meets (fun routes ↦ ∀ route ∈ routes, Listening route ∧ Consistent route)
    (fun routes ↦ ∀ route ∈ routes, Released route)
    (fun _ hroute ↦ absurd hroute List.not_mem_nil) (fun _ hroute ↦ absurd hroute List.not_mem_nil)
    (fun _ _ _ hlistening hstep ↦ serviceStep_spec hlistening hstep) hrun
  rw [unsubscribed_iff fun route hroute ↦ (hall.1 route hroute).1]
  exact hall.2

/-- A client that closes after its stream was set up. -/
theorem unsubscribed_closed :
    ∃ routes, service.run [.connect "1", .onStream 0 (.job (some exampleJob)),
      .onStream 0 .subscribed, .onStream 0 .close] = some routes ∧ Unsubscribed routes := by
  have hsubscribed : service.Meets ServiceUnsubscribable [.connect "1",
      .onStream 0 (.job (some exampleJob)), .onStream 0 .subscribed] := by
    refine System.meets_of_forall fun action haction routes ↦ ?_
    simp only [List.mem_cons, List.not_mem_nil, or_false] at haction
    rcases haction with rfl | rfl | rfl
    · trivial
    · exact fun route _ hbegins ↦ hbegins.elim
    · exact fun route _ hbegins ↦ hbegins.elim
  have hmeets : service.Meets ServiceUnsubscribable ([.connect "1",
      .onStream 0 (.job (some exampleJob)), .onStream 0 .subscribed] ++ [.onStream 0 .close]) := by
    refine hsubscribed.concat fun routes hroutes route hroute _ ↦ ?_
    obtain rfl := Option.some.inj hroutes
    obtain rfl := Option.some.inj hroute
    rfl
  exact ⟨_, rfl, (unsubscribed_iff_meets [.connect "1", .onStream 0 (.job (some exampleJob)),
    .onStream 0 .subscribed, .onStream 0 .close] _ rfl).mpr hmeets⟩

/-- A client that closes while the subscription is under way leaves a listener for good. -/
theorem not_unsubscribed_early :
    ∃ routes, service.run [.connect "1", .onStream 0 (.job (some exampleJob)),
      .onStream 0 .close, .onStream 0 .subscribed, .onStream 0 (.state .active)] = some routes ∧
      ¬ Unsubscribed routes := by
  refine ⟨_, rfl, fun h ↦ ?_⟩
  exact absurd (h.1 _ List.mem_cons_self rfl rfl).1 (by decide)

end FileForge.Jobs.StreamListeners
