import FileForge.Jobs.OutcomeDelivery

/-!
# The order of what a watcher sees

The system of `OutcomeDelivery`, and the progress that its client is shown. Events are forwarded as
soon as the server has replied to the `SUBSCRIBE`; the opening snapshot is written later, and shows
the progress of the job as it was loaded before. So an event can overtake the snapshot.

`neverBack_iff_respects` says when the bar of the client jumps back although the worker reports
progress in order: a snapshot is written after a later progress, or an event is forwarded after a
snapshot that shows more.
-/

set_option autoImplicit false
set_option relaxedAutoImplicit false

namespace FileForge.Jobs.SnapshotOrder

open Foundation.JsonValue Foundation.PubSub Foundation.Execution Foundation.Execution.System
open Shared.Contract Errors Events Queue EventStream OutcomeDelivery
open Worker (ProcessorResult progressEvent outcomeEvent completedEvent_valid)

/-! ### What the client is shown -/

/-- The event of an item that moves the bar: one that is not a failure. -/
def shownEvent : Output → Option JobEvent
  | .event event => if event.state = .failed then none else some event
  | _ => none

/-- The events without the failure that have reached the client, in the order of their writes. -/
def shown (stream : Stream) : List JobEvent := stream.delivered.filterMap shownEvent

/-- The bar never jumps back. -/
def NeverBack (stream : Stream) : Prop :=
  (shown stream).Pairwise fun earlier later ↦ earlier.progress ≤ later.progress

/-- The progress of a report. -/
def reported : Action → Option ℚ
  | .report progress => some progress
  | _ => none

/-- The progress that the worker publishes before the end of the job. -/
def reports (actions : List Action) : List ℚ := actions.filterMap reported

/-- The worker publishes progress in order. -/
def Rising (actions : List Action) : Prop := (reports actions).Pairwise (· ≤ ·)

/-! ### When it does not -/

/-- The progress of the record when the route loads the job, from that at the start. -/
def loadedProgress (progress : Json) : List Action → Json
  | [] => progress
  | .load :: _ => progress
  | .updateProgress later :: rest => loadedProgress later rest
  | _ :: rest => loadedProgress progress rest

/-- The progress of the opening snapshot, unless it is one of a settled job. -/
def opening (job : Job) (actions : List Action) : ℚ :=
  (loadedProgress job.progress actions).asNumber.getD 0

/-- A step that keeps the order: the snapshot of a job that goes on is written when no later progress
is shown, and an event that is forwarded after it shows no less. -/
def InOrder (job : Job) (past : List Action) (state : State) : Action → Prop
  | .snapshot => ∀ loaded answer, state.stream.handler = .answered loaded answer →
      answer ≠ .completed → answer ≠ .failed → .ended ∉ state.stream.output →
        ∀ event ∈ shown state.stream, event.progress ≤ opening job past
  | .read => state.stream.handler = .done → state.stream.closed = false →
      ∀ item ∈ state.connection.inbound.head?, ∀ event ∈ heardEvent job.id item,
        event.state ≠ .failed → opening job past ≤ event.progress
  | _ => True

/-! ### The loaded job -/

theorem loadedProgress_concat {progress : Json} {actions : List Action} {action : Action}
    (h : ∀ later, action ≠ .updateProgress later) :
    loadedProgress progress (actions ++ [action]) = loadedProgress progress actions := by
  induction actions generalizing progress with
  | nil => cases action <;> first | rfl | exact absurd rfl (h _)
  | cons first rest ih => cases first <;> first | rfl | exact ih

/-- What is written to the record after the job was loaded is not seen. -/
theorem loadedProgress_concat_of_mem {progress : Json} {actions : List Action}
    (h : .load ∈ actions) (action : Action) :
    loadedProgress progress (actions ++ [action]) = loadedProgress progress actions := by
  induction actions generalizing progress with
  | nil => exact absurd h List.not_mem_nil
  | cons first rest ih =>
    cases first with
    | load => rfl
    | _ => exact ih ((List.mem_cons.mp h).resolve_left nofun)

theorem loadedProgress_concat_update {progress : Json} {actions : List Action}
    (h : .load ∉ actions) (later : Json) :
    loadedProgress progress (actions ++ [.updateProgress later]) = later := by
  induction actions generalizing progress with
  | nil => rfl
  | cons first rest ih =>
    have hrest : .load ∉ rest := fun hmem ↦ h (List.mem_cons_of_mem _ hmem)
    cases first with
    | load => exact absurd List.mem_cons_self h
    | _ => exact ih hrest

/-- The job that the handler has loaded, while it still needs it. -/
def loadedJob : Handler → Option Job
  | .subscribing job | .reading job | .answered job _ => some job
  | .loading | .done => none

/-- Where the snapshot's progress comes from. -/
structure Loaded (job : Job) (actions : List Action) (state : State) : Prop where
  loaded : .load ∈ actions ↔ state.stream.handler ≠ .loading
  record : .load ∉ actions → state.record.job.progress = loadedProgress job.progress actions
  kept : ∀ loaded ∈ loadedJob state.stream.handler,
    loaded.progress = loadedProgress job.progress actions

theorem loaded_start (job : Job) : Loaded job [] (system job).start where
  loaded := iff_of_false List.not_mem_nil fun h ↦ h rfl
  record := fun _ ↦ rfl
  kept := nofun

/-- A step that neither loads the job nor updates its progress. -/
theorem Loaded.of_kept {job : Job} {actions : List Action} {state after : State} {action : Action}
    (h : Loaded job actions state) (hload : action ≠ .load)
    (hupdate : ∀ later, action ≠ .updateProgress later)
    (hrecord : after.record.job.progress = state.record.job.progress)
    (hloading : after.stream.handler = .loading ↔ state.stream.handler = .loading)
    (hkept : ∀ loaded ∈ loadedJob after.stream.handler, loaded ∈ loadedJob state.stream.handler) :
    Loaded job (actions ++ [action]) after := by
  have hmem : .load ∈ actions ++ [action] ↔ .load ∈ actions := by
    simp [hload.symm]
  refine ⟨?_, ?_, ?_⟩
  · rw [hmem, h.loaded, ne_eq, ne_eq, hloading]
  · rw [hmem, hrecord, loadedProgress_concat hupdate]
    exact h.record
  · rw [loadedProgress_concat hupdate]
    exact fun loaded hloaded ↦ h.kept loaded (hkept loaded hloaded)

theorem Loaded.step {job : Job} {actions : List Action} {state after : State} {action : Action}
    (h : Loaded job actions state) (hstep : Step state action after) :
    Loaded job (actions ++ [action]) after := by
  cases hstep with
  | start | retry | finish | report | announce | serve =>
    exact h.of_kept nofun nofun rfl Iff.rfl fun _ hloaded ↦ hloaded
  | @settle outcome hworker =>
    refine h.of_kept nofun nofun ?_ Iff.rfl fun _ hloaded ↦ hloaded
    cases outcome <;> rfl
  | updateProgress hworker progress =>
    refine ⟨?_, ?_, ?_⟩
    · simpa using h.loaded
    · intro hload
      rw [loadedProgress_concat_update fun hmem ↦ hload (List.mem_append_left _ hmem)]
    · intro loaded hloaded
      have hhandler : state.stream.handler ≠ .loading := by
        rintro heq
        rw [heq] at hloaded
        cases hloaded
      rw [loadedProgress_concat_of_mem (h.loaded.mpr hhandler)]
      exact h.kept loaded hloaded
  | load hhandler =>
    have hload : .load ∉ actions := fun hmem ↦ h.loaded.mp hmem hhandler
    refine ⟨iff_of_true (by simp) nofun, fun hnot ↦ absurd (by simp) hnot, ?_⟩
    intro loaded hloaded
    obtain rfl := Option.some.inj hloaded
    have hother : ∀ later, Action.load ≠ .updateProgress later := nofun
    rw [loadedProgress_concat hother]
    exact h.record hload
  | @read item connection hread =>
    rcases onRead_handler state.stream item with hsame | ⟨loaded, hloaded, hreading⟩
    · refine h.of_kept nofun nofun rfl ?_ ?_
      · show (onRead state.stream item).1.handler = _ ↔ _
        rw [hsame]
      · show ∀ loaded ∈ loadedJob (onRead state.stream item).1.handler, _
        rw [hsame]
        exact fun _ hloaded ↦ hloaded
    · refine h.of_kept nofun nofun rfl ?_ ?_
      · show (onRead state.stream item).1.handler = _ ↔ _
        rw [hloaded, hreading]
        exact iff_of_false nofun nofun
      · show ∀ loaded ∈ loadedJob (onRead state.stream item).1.handler, _
        rw [hloaded, hreading]
        exact fun _ hloaded ↦ hloaded
  | @answer loaded hhandler =>
    have honState : (state.stream.onState state.record.state).handler =
        .answered loaded state.record.state := by
      rw [Stream.onState_of_reading hhandler]
    refine h.of_kept nofun nofun rfl ?_ ?_
    · show (state.stream.onState state.record.state).handler = _ ↔ _
      rw [honState, hhandler]
      exact iff_of_false nofun nofun
    · show ∀ loaded ∈ loadedJob (state.stream.onState state.record.state).handler, _
      rw [honState, hhandler]
      exact fun _ hloaded ↦ hloaded
  | snapshot hhandler =>
    have hdone : state.stream.writeSnapshot.1.handler = .done :=
      (Stream.writeSnapshot_handler hhandler).1
    refine h.of_kept nofun nofun rfl ?_ ?_
    · show state.stream.writeSnapshot.1.handler = _ ↔ _
      rw [hdone, hhandler]
      exact iff_of_false nofun nofun
    · show ∀ loaded ∈ loadedJob state.stream.writeSnapshot.1.handler, _
      rw [hdone]
      rintro loaded ⟨⟩

/-! ### What is written -/

section Written

variable {stream : Stream}

theorem shown_congr {after : Stream} (h : after.output = stream.output) :
    shown after = shown stream := by
  rw [shown, shown, Stream.delivered, Stream.delivered, h]

theorem delivered_of_open (hopen : .ended ∉ stream.output) : stream.delivered = stream.output := by
  refine List.takeWhile_eq_self_iff.mpr fun item hitem ↦ ?_
  cases item with
  | ended => exact absurd hitem hopen
  | _ => rfl

/-- An event that is written to an open response. -/
theorem shown_write_of_open (hopen : .ended ∉ stream.output) (event : JobEvent) :
    shown (stream.write (.event event)) =
      shown stream ++ if event.state = .failed then [] else [event] := by
  have hopen' : .ended ∉ (stream.write (.event event)).output := by
    simpa [Stream.write] using hopen
  rw [shown, shown, delivered_of_open hopen, delivered_of_open hopen']
  show (stream.output ++ [Output.event event]).filterMap shownEvent = _
  rw [List.filterMap_append]
  by_cases hfailed : event.state = .failed <;> simp [shownEvent, hfailed]

/-- An item that is written after the end of the response. -/
theorem shown_write_of_ended (hended : .ended ∈ stream.output) (item : Output) :
    shown (stream.write item) = shown stream := by
  have hshort : (stream.output.takeWhile fun item ↦ !item.isEnded).length ≠
      stream.output.length := by
    intro hlength
    have hall := List.takeWhile_eq_self_iff.mp ((List.takeWhile_prefix _).eq_of_length hlength)
    exact absurd (hall .ended hended) Bool.false_ne_true
  rw [shown, shown, Stream.delivered, Stream.delivered, Stream.write, List.takeWhile_append,
    if_neg hshort]

/-- An item that is no event, or a failure. -/
theorem shown_write_of_silent {item : Output} (hsilent : shownEvent item = none) :
    shown (stream.write item) = shown stream := by
  have hlast : ([item].takeWhile fun item ↦ !item.isEnded).filterMap shownEvent = [] := by
    rw [List.takeWhile_cons]
    split_ifs <;> simp [hsilent]
  rw [shown, shown, Stream.delivered, Stream.delivered, Stream.write, List.takeWhile_append]
  split_ifs with hall
  · rw [List.filterMap_append, hlast, List.append_nil,
      (List.takeWhile_prefix _).eq_of_length hall]
  · rfl

theorem shown_cleanup (stream : Stream) : shown stream.cleanup.1 = shown stream := by
  rw [Stream.cleanup]
  split_ifs
  · rfl
  · rfl
  · exact shown_write_of_silent rfl

end Written

/-! ### Closed streams -/

theorem closed_step {state after : State} {action : Action} (hstep : Step state action after)
    (h : state.stream.closed = true) : after.stream.closed = true := by
  cases hstep with
  | start | updateProgress | report | retry | finish | announce | settle | serve => exact h
  | load hhandler => exact h
  | @read item connection hread =>
    cases item with
    | reply ticket command =>
      cases command with
      | subscribe channel => exact state.stream.onSubscribed_rest.1.trans h
      | unsubscribe channel => exact h
    | message channel payload =>
      show (state.stream.onMessage channel payload).1.closed = true
      rw [Stream.onMessage]
      split_ifs
      · split
        · rw [Stream.onEvent, if_pos h]
          exact h
        · exact h
      · exact h
  | answer hhandler =>
    show (state.stream.onState state.record.state).closed = true
    rw [Stream.onState_of_reading hhandler]
    exact h
  | snapshot hhandler =>
    show state.stream.writeSnapshot.1.closed = true
    rw [Stream.writeSnapshot_eq hhandler]
    split_ifs
    · exact Stream.closed_cleanup _
    · exact h

/-- Cleanup begins with the terminal event. -/
theorem closed_of_terminalWritten_step {job : Job} {actions : List Action} {state after : State}
    {action : Action} (hopen : Open job actions state) (hbefore : ¬ state.stream.TerminalWritten)
    (hstep : Step state action after) (hafter : after.stream.TerminalWritten) :
    after.stream.closed = true := by
  cases hstep with
  | start | updateProgress | report | retry | finish | announce | settle | serve =>
    exact absurd hafter hbefore
  | load hhandler =>
    refine absurd (hafter.of_subset hopen.ended fun event _ hevent ↦ ?_) hbefore
    exact (List.mem_append.mp hevent).resolve_right (by simp)
  | @read item connection hread =>
    cases item with
    | reply ticket command =>
      refine absurd (hafter.of_subset hopen.ended fun event _ hevent ↦ ?_) hbefore
      cases command with
      | subscribe channel =>
        rw [← state.stream.onSubscribed_rest.2.2]
        exact hevent
      | unsubscribe channel => exact (List.mem_append.mp hevent).resolve_right (by simp)
    | message channel payload =>
      have hwritten : (state.stream.onMessage channel payload).1.TerminalWritten := hafter
      obtain ⟨event, hevent, hterminal⟩ :=
        (hwritten.of_onMessage hopen.ended hopen.closed).resolve_left hbefore
      have hsettled : event.state = .completed ∨ event.state = .failed := hterminal
      show (state.stream.onMessage channel payload).1.closed = true
      by_cases hlistening : state.stream.listening = true
      · rw [Stream.onMessage_of_heard hlistening hevent, Stream.onEvent,
          if_neg (by rw [hopen.closed]; exact Bool.false_ne_true), if_pos hsettled]
        exact Stream.closed_cleanup _
      · rw [Stream.onMessage, if_neg hlistening] at hwritten
        exact absurd hwritten hbefore
  | answer hhandler =>
    refine absurd (hafter.of_subset hopen.ended fun event _ hevent ↦ ?_) hbefore
    have honState : (state.stream.onState state.record.state).output = state.stream.output := by
      rw [Stream.onState_of_reading hhandler]
    rw [← honState]
    exact hevent
  | @snapshot loaded answered hhandler =>
    have hwritten : state.stream.writeSnapshot.1.TerminalWritten := hafter
    have hanswered := (hwritten.of_writeSnapshot hhandler hopen.ended).resolve_left hbefore
    show state.stream.writeSnapshot.1.closed = true
    rw [Stream.writeSnapshot_eq hhandler, if_pos hanswered]
    exact Stream.closed_cleanup _

/-- A stream that is not closed has its response and its listener. -/
structure Listens (state : State) : Prop where
  ended : .ended ∉ state.stream.output
  listening : state.connection.inbound ≠ [] → state.stream.listening = true

theorem listens_of_run {job : Job} {actions : List Action} {state : State}
    (hrun : (system job).run actions = some state) (hclosed : state.stream.closed = false) :
    Listens state := by
  have hwritten : state.stream.TerminalWritten → state.stream.closed = true := by
    refine run_induction (motive := fun _ state ↦ state.stream.TerminalWritten →
      state.stream.closed = true) (fun ⟨_, hevent, _⟩ ↦ (List.not_mem_nil hevent).elim) ?_ hrun
    intro actions before action after hbefore ih hstep hafter
    by_cases hearlier : before.stream.TerminalWritten
    · exact closed_step (step_cases hstep) (ih hearlier)
    · exact closed_of_terminalWritten_step ((invariant_of_run hbefore).opened hearlier) hearlier
        (step_cases hstep) hafter
  have hopen : Open job actions state := (invariant_of_run hrun).opened fun hterminal ↦ by
    rw [hwritten hterminal] at hclosed
    cases hclosed
  refine ⟨hopen.ended, fun hinbound ↦ ?_⟩
  cases hopen.phase with
  | loading _ _ hconnection =>
    rw [hconnection] at hinbound
    exact absurd rfl hinbound
  | sent _ _ hlistening => exact hlistening
  | subscribed _ _ hlistening => exact hlistening

/-! ### What the server has sent -/

/-- The events on their way to the client. -/
def heard (job : Job) (connection : Connection String Json Unit) : List JobEvent :=
  connection.inbound.filterMap (heardEvent job.id)

theorem heard_resume (job : Job) (state : State) (connection : Connection String Json Unit)
    (resumed : Stream × List (Command String)) :
    heard job (state.resume connection resumed).connection = heard job connection := by
  rw [State.resume, heard, sendAll_inbound]
  rfl

/-- Events in the order in which they were sent. -/
structure Sent (actions : List Action) (events : List JobEvent) : Prop where
  bounded : ∀ event ∈ events, event.progress ≤ 100
  published : ∀ event ∈ events, ¬ event.state.Terminal → event.progress ∈ reports actions
  ordered : events.Pairwise fun earlier later ↦ ¬ earlier.state.Terminal →
    later.state ≠ .failed → earlier.progress ≤ later.progress

theorem reports_concat (actions : List Action) (action : Action) :
    reports (actions ++ [action]) = reports actions ++ (reported action).toList := by
  rw [reports, reports, List.filterMap_append]
  cases hreported : reported action <;> simp [hreported]

theorem Rising.of_concat {actions : List Action} {action : Action}
    (h : Rising (actions ++ [action])) : Rising actions := by
  rw [Rising, reports_concat] at h
  exact (List.pairwise_append.mp h).1

theorem Sent.concat {actions : List Action} {events : List JobEvent} (h : Sent actions events)
    (action : Action) : Sent (actions ++ [action]) events where
  bounded := h.bounded
  published := fun event hevent hterminal ↦ by
    rw [reports_concat]
    exact List.mem_append_left _ (h.published event hevent hterminal)
  ordered := h.ordered

/-- The worker publishes one more event. Assumes: it reports in order, a progress that is shown as
such is the one of the report, and the completion shows all of it. -/
theorem Sent.publish {actions : List Action} {events : List JobEvent} (h : Sent actions events)
    {action : Action} (hrising : Rising (actions ++ [action])) {event : JobEvent}
    (hbounded : event.progress ≤ 100)
    (hreported : ¬ event.state.Terminal → reported action = some event.progress)
    (hcompleted : event.state = .completed → event.progress = 100) :
    Sent (actions ++ [action]) (events ++ [event]) := by
  refine ⟨fun other hother ↦ ?_, fun other hother hterminal ↦ ?_, ?_⟩
  · rcases List.mem_append.mp hother with hold | hnew
    · exact h.bounded other hold
    · exact List.mem_singleton.mp hnew ▸ hbounded
  · rw [reports_concat]
    rcases List.mem_append.mp hother with hold | hnew
    · exact List.mem_append_left _ (h.published other hold hterminal)
    · rw [List.mem_singleton.mp hnew] at hterminal ⊢
      simp [hreported hterminal]
  · refine List.pairwise_append.mpr ⟨h.ordered, List.pairwise_singleton _ _, ?_⟩
    intro earlier hearlier later hlater hopen hshown
    rw [List.mem_singleton.mp hlater] at hshown ⊢
    by_cases hterminal : event.state.Terminal
    · rw [hcompleted (hterminal.resolve_right hshown)]
      exact h.bounded earlier hearlier
    · rw [Rising, reports_concat, hreported hterminal] at hrising
      exact (List.pairwise_append.mp hrising).2.2 _ (h.published earlier hearlier hopen) _
        (List.mem_singleton_self _)

/-- A publication adds one valid event to those on their way, or none. -/
theorem heard_publishing (job : Job) (state : State) (event : JobEvent) :
    heard job (publishing state event) = heard job state.connection ∨
      (event.Valid ∧
        heard job (publishing state event) = heard job state.connection ++ [event]) := by
  rw [publishing, Connection.publish]
  split_ifs
  · have hheard : heardEvent job.id (.message (publication event).1 (publication event).2) =
        if event.jobId = job.id ∧ event.Valid then some event else none :=
      handler_publication job.id event
    simp only [heard, List.filterMap_append, List.filterMap_cons, List.filterMap_nil, hheard]
    split_ifs with hvalid
    · exact Or.inr ⟨hvalid.2, rfl⟩
    · exact Or.inl (List.append_nil _)
  · exact Or.inl rfl

/-! ### What holds in every run -/

theorem opening_concat {job : Job} {actions : List Action} {state : State}
    (h : Loaded job actions state) (hloading : state.stream.handler ≠ .loading) (action : Action) :
    opening job (actions ++ [action]) = opening job actions := by
  rw [opening, opening, loadedProgress_concat_of_mem (h.loaded.mpr hloading)]

/-- What is shown was sent and has been read, apart from the snapshot. -/
structure Trail (job : Job) (actions : List Action) (state : State) (past : List JobEvent) : Prop
    where
  sent : Sent actions (past ++ heard job state.connection)
  live : state.stream.closed = false → ∀ event ∈ past, ¬ event.state.Terminal
  before : state.stream.handler ≠ .done → ∀ event ∈ shown state.stream, event ∈ past
  after : state.stream.handler = .done → state.stream.closed = false →
    (∀ event ∈ shown state.stream, event ∈ past ∨ event.progress = opening job actions) ∧
      ∃ event ∈ shown state.stream, event.progress = opening job actions

theorem trail_start (job : Job) : Trail job [] (system job).start [] where
  sent := ⟨nofun, nofun, List.Pairwise.nil⟩
  live := fun _ ↦ nofun
  before := fun _ ↦ nofun
  after := nofun

/-- A step that shows nothing. -/
theorem Trail.of_shown {job : Job} {actions : List Action} {state after : State}
    {past past' : List JobEvent} (h : Trail job actions state past)
    (hloaded : Loaded job actions state) {action : Action}
    (hsent : Sent (actions ++ [action]) (past' ++ heard job after.connection))
    (hpast : past ⊆ past')
    (hlive : state.stream.closed = false → ∀ event ∈ past', ¬ event.state.Terminal)
    (hclosed : after.stream.closed = state.stream.closed)
    (hdone : after.stream.handler = .done ↔ state.stream.handler = .done)
    (hshown : shown after.stream = shown state.stream) :
    Trail job (actions ++ [action]) after past' := by
  refine ⟨hsent, ?_, ?_, ?_⟩
  · rwa [hclosed]
  · rw [hshown, ne_eq, hdone]
    exact fun hhandler event hevent ↦ hpast (h.before hhandler event hevent)
  · rw [hclosed, hshown, hdone]
    intro hhandler hopen
    rw [opening_concat hloaded (by rw [hhandler]; exact nofun)]
    obtain ⟨hall, hsnapshot⟩ := h.after hhandler hopen
    exact ⟨fun event hevent ↦ (hall event hevent).imp_left fun hmem ↦ hpast hmem, hsnapshot⟩

/-- The bar after one more event. -/
theorem pairwise_concat_iff (events : List JobEvent) (event : JobEvent) :
    (events ++ [event]).Pairwise (fun earlier later ↦ earlier.progress ≤ later.progress) ↔
      events.Pairwise (fun earlier later ↦ earlier.progress ≤ later.progress) ∧
        ∀ earlier ∈ events, earlier.progress ≤ event.progress := by
  simp [List.pairwise_append]

/-! ### One step -/

section Steps

variable {job : Job} {actions : List Action} {state : State} {past : List JobEvent}

/-- A step of the worker or the server that sends no event. -/
theorem Trail.quiet (h : Trail job actions state past) (hloaded : Loaded job actions state)
    {after : State} (action : Action)
    (hheard : heard job after.connection = heard job state.connection)
    (hstream : after.stream = state.stream) : Trail job (actions ++ [action]) after past := by
  refine h.of_shown hloaded ?_ (List.Subset.refl _) h.live ?_ ?_ ?_
  · rw [hheard]
    exact h.sent.concat action
  · rw [hstream]
  · rw [hstream]
  · rw [hstream]

/-- The worker publishes an event. -/
theorem Trail.publish (h : Trail job actions state past) (hloaded : Loaded job actions state)
    {after : State} {action : Action} (hrising : Rising (actions ++ [action])) {event : JobEvent}
    (hconnection : after.connection = publishing state event)
    (hstream : after.stream = state.stream)
    (hreported : ¬ event.state.Terminal → reported action = some event.progress)
    (hcompleted : event.state = .completed → event.progress = 100) :
    Trail job (actions ++ [action]) after past := by
  rcases heard_publishing job state event with hsame | ⟨hvalid, hmore⟩
  · exact h.quiet hloaded action (by rw [hconnection, hsame]) hstream
  · refine h.of_shown hloaded ?_ (List.Subset.refl _) h.live ?_ ?_ ?_
    · rw [hconnection, hmore, ← List.append_assoc]
      exact h.sent.publish hrising hvalid.2 hreported hcompleted
    · rw [hstream]
    · rw [hstream]
    · rw [hstream]

theorem snapshot_of_live (loaded : Job) {answer : QueueState} (hcompleted : answer ≠ .completed)
    (hfailed : answer ≠ .failed) :
    (snapshot loaded answer).progress = loaded.progress.asNumber.getD 0 ∧
      (snapshot loaded answer).state ≠ .failed := by
  cases answer <;> simp_all [EventStream.snapshot]

/-- The stream after the snapshot. -/
theorem writeSnapshot_spec {stream : Stream} {loaded : Job} {answer : QueueState}
    (hhandler : stream.handler = .answered loaded answer) :
    stream.writeSnapshot.1.handler = .done ∧
      shown stream.writeSnapshot.1 =
        shown (stream.write (.event (EventStream.snapshot loaded answer))) ∧
      (stream.writeSnapshot.1.closed = false →
        stream.closed = false ∧ answer ≠ .completed ∧ answer ≠ .failed) := by
  refine ⟨(Stream.writeSnapshot_handler hhandler).1, ?_, ?_⟩
  · rw [Stream.writeSnapshot_eq hhandler]
    split_ifs
    · rw [shown_cleanup]
      rfl
    · rfl
  · rw [Stream.writeSnapshot_eq hhandler]
    split_ifs with hsettled
    · rw [Stream.closed_cleanup]
      exact nofun
    · rw [not_or] at hsettled
      exact fun hclosed ↦ ⟨hclosed, hsettled⟩

/-- The route writes its snapshot. -/
theorem Trail.snapshot (h : Trail job actions state past) (hloaded : Loaded job actions state)
    (hlistens : state.stream.closed = false → Listens state) {loaded : Job} {answer : QueueState}
    (hhandler : state.stream.handler = .answered loaded answer) :
    Trail job (actions ++ [.snapshot])
        (state.resume state.connection state.stream.writeSnapshot) past ∧
      (NeverBack state.stream.writeSnapshot.1 ↔
        NeverBack state.stream ∧ InOrder job actions state .snapshot) := by
  obtain ⟨hdone, hshown, hclosed⟩ := writeSnapshot_spec hhandler
  have hnot : state.stream.handler ≠ .done := by
    rw [hhandler]
    exact nofun
  have hloading : state.stream.handler ≠ .loading := by
    rw [hhandler]
    exact nofun
  have hopening : loaded.progress.asNumber.getD 0 = opening job actions := by
    rw [opening, hloaded.kept loaded (by rw [hhandler]; rfl)]
  constructor
  · refine ⟨?_, ?_, ?_, ?_⟩
    · rw [heard_resume]
      exact h.sent.concat _
    · exact fun hopen ↦ h.live (hclosed hopen).1
    · exact fun hother ↦ absurd hdone hother
    · intro _ hopen
      obtain ⟨hbefore, hcompleted, hfailed⟩ := hclosed hopen
      obtain ⟨hprogress, hstate⟩ := snapshot_of_live loaded hcompleted hfailed
      show (∀ event ∈ shown state.stream.writeSnapshot.1, _) ∧
        ∃ event ∈ shown state.stream.writeSnapshot.1, _
      rw [hshown, shown_write_of_open (hlistens hbefore).ended, if_neg hstate,
        opening_concat hloaded hloading, ← hopening, ← hprogress]
      refine ⟨fun event hevent ↦ ?_, _, by simp, rfl⟩
      rcases List.mem_append.mp hevent with hold | hnew
      · exact Or.inl (h.before hnot event hold)
      · exact Or.inr (by rw [List.mem_singleton.mp hnew])
  · have horder : InOrder job actions state .snapshot ↔ (answer ≠ .completed → answer ≠ .failed →
        .ended ∉ state.stream.output →
          ∀ event ∈ shown state.stream, event.progress ≤ opening job actions) := by
      constructor
      · exact fun horder ↦ horder loaded answer hhandler
      · intro horder other found hother
        rw [hhandler] at hother
        obtain ⟨rfl, rfl⟩ := Handler.answered.inj hother
        exact horder
    rw [NeverBack, hshown, horder]
    by_cases hended : .ended ∈ state.stream.output
    · rw [shown_write_of_ended hended]
      exact (and_iff_left fun _ _ hopen ↦ absurd hended hopen).symm
    rw [shown_write_of_open hended]
    by_cases hfailed : answer = .failed
    · have hsilent : (EventStream.snapshot loaded .failed).state = .failed := rfl
      rw [hfailed, if_pos hsilent, List.append_nil]
      exact (and_iff_left fun _ hother ↦ absurd rfl hother).symm
    by_cases hcompleted : answer = .completed
    · rw [hcompleted, if_neg (by exact nofun), pairwise_concat_iff]
      refine and_congr_right fun _ ↦ iff_of_true (fun event hevent ↦ ?_)
        fun hother ↦ absurd rfl hother
      exact h.sent.bounded event (List.mem_append_left _ (h.before hnot event hevent))
    · obtain ⟨hprogress, hstate⟩ := snapshot_of_live loaded hcompleted hfailed
      rw [if_neg hstate, pairwise_concat_iff, hprogress, hopening]
      exact and_congr_right fun _ ↦ ⟨fun hall _ _ _ ↦ hall, fun hall ↦
        hall hcompleted hfailed hended⟩

theorem onMessage_of_closed {stream : Stream} (hclosed : stream.closed = true) (channel : String)
    (payload : Json) : stream.onMessage channel payload = (stream, []) := by
  rw [Stream.onMessage]
  split_ifs
  · split
    · rw [Stream.onEvent, if_pos hclosed]
    · rfl
  · rfl

/-- An open stream forwards the event. -/
theorem onEvent_spec {stream : Stream} (hclosed : stream.closed = false) (event : JobEvent) :
    shown (stream.onEvent event).1 = shown (stream.write (.event event)) ∧
      ((stream.onEvent event).1.closed = false → ¬ event.state.Terminal) := by
  rw [Stream.onEvent, if_neg (by rw [hclosed]; exact Bool.false_ne_true)]
  split_ifs with hterminal
  · rw [shown_cleanup, Stream.closed_cleanup]
    exact ⟨rfl, fun hopen ↦ by cases hopen⟩
  · exact ⟨rfl, fun _ ↦ hterminal⟩

/-- An open stream forwards an event that was sent to it. -/
theorem Trail.forward (h : Trail job actions state past) (hloaded : Loaded job actions state)
    (hclosed : state.stream.closed = false) (hended : .ended ∉ state.stream.output)
    {connection : Connection String Json Unit} {event : JobEvent}
    (hsent : Sent (actions ++ [.read]) (past ++ [event] ++ heard job connection)) :
    (∃ past', Trail job (actions ++ [.read])
        (state.resume connection (state.stream.onEvent event)) past') ∧
      (NeverBack (state.stream.onEvent event).1 ↔ NeverBack state.stream ∧
        (state.stream.handler = .done → state.stream.closed = false →
          ∀ found ∈ some event, found.state ≠ .failed →
            opening job actions ≤ found.progress)) := by
  obtain ⟨hshown, hlive⟩ := onEvent_spec hclosed event
  have hhandler := (state.stream.onEvent_handler event).1
  rw [shown_write_of_open hended] at hshown
  have hmore : ∀ found ∈ shown (state.stream.onEvent event).1,
      found ∈ shown state.stream ∨ found = event := by
    intro found hfound
    rw [hshown] at hfound
    refine (List.mem_append.mp hfound).imp_right fun hnew ↦ ?_
    split_ifs at hnew
    · exact absurd hnew List.not_mem_nil
    · exact List.mem_singleton.mp hnew
  constructor
  · refine ⟨past ++ [event], ?_, ?_, ?_, ?_⟩
    · rw [heard_resume]
      exact hsent
    · intro hopen found hfound
      rcases List.mem_append.mp hfound with hold | hnew
      · exact h.live hclosed found hold
      · exact List.mem_singleton.mp hnew ▸ hlive hopen
    · intro hnot found hfound
      rcases hmore found hfound with hold | rfl
      · exact List.mem_append_left _ (h.before (fun hdone ↦ hnot (hhandler.trans hdone)) found hold)
      · exact List.mem_append_right _ (List.mem_singleton_self _)
    · intro hdone _
      have hdone' : state.stream.handler = .done := hhandler.symm.trans hdone
      obtain ⟨hall, found, hfound, hprogress⟩ := h.after hdone' hclosed
      rw [opening_concat hloaded (by rw [hdone']; exact nofun)]
      refine ⟨fun other hother ↦ ?_, found, ?_, hprogress⟩
      · rcases hmore other hother with hold | rfl
        · exact (hall other hold).imp_left fun hmem ↦ List.mem_append_left _ hmem
        · exact Or.inl (List.mem_append_right _ (List.mem_singleton_self _))
      · show found ∈ shown (state.stream.onEvent event).1
        rw [hshown]
        exact List.mem_append_left _ hfound
  · rw [NeverBack, hshown]
    by_cases hfailed : event.state = .failed
    · rw [if_pos hfailed, List.append_nil]
      refine (and_iff_left fun _ _ found hfound hother ↦ ?_).symm
      exact absurd (Option.some.inj hfound ▸ hfailed) hother
    · rw [if_neg hfailed, pairwise_concat_iff]
      refine and_congr_right fun _ ↦
        ⟨fun hall hdone _ found hfound _ ↦ ?_, fun hall found hfound ↦ ?_⟩
      · obtain ⟨first, hfirst, hprogress⟩ := (h.after hdone hclosed).2
        rw [← hprogress, ← Option.some.inj hfound]
        exact hall first hfirst
      · have hpast : found ∈ past → found.progress ≤ event.progress := by
          intro hmem
          have hordered := (List.pairwise_append.mp hsent.ordered).1
          exact (List.pairwise_append.mp hordered).2.2 found hmem event (List.mem_singleton_self _)
            (h.live hclosed found hmem) hfailed
        by_cases hdone : state.stream.handler = .done
        · rcases (h.after hdone hclosed).1 found hfound with hmem | hprogress
          · exact hpast hmem
          · rw [hprogress]
            exact hall hdone hclosed event rfl hfailed
        · exact hpast (h.before hdone found hfound)

/-- The subscriber reads a message. -/
theorem Trail.read (h : Trail job actions state past) (hloaded : Loaded job actions state)
    (hlistens : state.stream.closed = false → Listens state)
    (hjobId : state.stream.jobId = job.id) {channel : String} {payload : Json}
    {connection : Connection String Json Unit}
    (hread : state.connection.read = some (.message channel payload, connection)) :
    (∃ past', Trail job (actions ++ [.read])
        (state.resume connection (state.stream.onMessage channel payload)) past') ∧
      (NeverBack (state.stream.onMessage channel payload).1 ↔
        NeverBack state.stream ∧ InOrder job actions state .read) := by
  obtain ⟨hinbound, -, -⟩ := Connection.read_eq_some hread
  have horder : InOrder job actions state .read ↔ (state.stream.handler = .done →
      state.stream.closed = false → ∀ event ∈ Events.handler job.id channel (some payload),
        event.state ≠ .failed → opening job actions ≤ event.progress) := by
    simp only [InOrder, hinbound, List.head?_cons, Option.mem_def, Option.some.injEq, forall_eq',
      heardEvent]
  have hheard : heard job state.connection =
      (Events.handler job.id channel (some payload)).toList ++ heard job connection := by
    rw [heard, hinbound, List.filterMap_cons]
    cases hevent : Events.handler job.id channel (some payload) <;> simp [heardEvent, hevent, heard]
  have hsent := h.sent.concat .read
  rw [hheard, ← List.append_assoc] at hsent
  by_cases hclosed : state.stream.closed = true
  · rw [onMessage_of_closed hclosed, horder]
    refine ⟨⟨_, h.of_shown hloaded hsent (List.subset_append_left _ _) ?_ rfl Iff.rfl rfl⟩, ?_⟩
    · intro hopen
      rw [hclosed] at hopen
      cases hopen
    · refine (and_iff_left fun _ hopen ↦ ?_).symm
      rw [hclosed] at hopen
      cases hopen
  · rw [Bool.not_eq_true] at hclosed
    have hinboundNe : state.connection.inbound ≠ [] := by
      rw [hinbound]
      exact List.cons_ne_nil _ _
    obtain ⟨hended, hlistening⟩ := hlistens hclosed
    rw [horder]
    cases hevent : Events.handler job.id channel (some payload) with
    | none =>
      rw [hevent, Option.toList_none, List.append_nil] at hsent
      rw [Stream.onMessage_of_unheard (by rw [hjobId, hevent])]
      refine ⟨⟨past, h.of_shown hloaded hsent (List.Subset.refl _) h.live rfl Iff.rfl rfl⟩, ?_⟩
      exact (and_iff_left fun _ _ ↦ nofun).symm
    | some event =>
      rw [hevent] at hsent
      rw [Stream.onMessage_of_heard (hlistening hinboundNe) (by rw [hjobId, hevent])]
      exact h.forward hloaded hclosed hended hsent

/-- A step that shows nothing keeps the order, and is allowed. -/
theorem neverBack_of_shown {after : State} {action : Action}
    (hshown : shown after.stream = shown state.stream) (horder : InOrder job actions state action) :
    NeverBack after.stream ↔ NeverBack state.stream ∧ InOrder job actions state action := by
  rw [NeverBack, NeverBack, hshown, and_iff_left horder]

/-- The subscriber reads a reply. -/
theorem Trail.reply (h : Trail job actions state past) (hloaded : Loaded job actions state)
    {ticket : Unit} {command : Command String} {connection : Connection String Json Unit}
    (hread : state.connection.read = some (.reply ticket command, connection)) :
    Trail job (actions ++ [.read])
        (state.resume connection (onRead state.stream (.reply ticket command))) past ∧
      (NeverBack (onRead state.stream (.reply ticket command)).1 ↔
        NeverBack state.stream ∧ InOrder job actions state .read) := by
  obtain ⟨hinbound, -, -⟩ := Connection.read_eq_some hread
  have horder : InOrder job actions state .read := by
    intro _ _ item hitem event hevent
    rw [hinbound] at hitem
    rw [← Option.some.inj hitem] at hevent
    cases hevent
  have hheard : heard job state.connection = heard job connection := by
    rw [heard, hinbound, List.filterMap_cons]
    rfl
  have hsent := h.sent.concat .read
  rw [hheard] at hsent
  cases command with
  | subscribe channel =>
    obtain ⟨hclosed, -, houtput⟩ := state.stream.onSubscribed_rest
    have hshown : shown state.stream.onSubscribed = shown state.stream := shown_congr houtput
    have hdone : state.stream.onSubscribed.handler = .done ↔ state.stream.handler = .done := by
      unfold Stream.onSubscribed
      split
      · rename_i hhandler
        rw [hhandler]
        exact iff_of_false nofun nofun
      · rfl
    refine ⟨h.of_shown hloaded hsent (List.Subset.refl _) h.live hclosed hdone hshown, ?_⟩
    show NeverBack state.stream.onSubscribed ↔ _
    rw [NeverBack, hshown, and_iff_left horder]
    rfl
  | unsubscribe channel =>
    have hshown : shown state.stream.onUnsubscribed = shown state.stream :=
      shown_write_of_silent rfl
    refine ⟨h.of_shown hloaded hsent (List.Subset.refl _) h.live rfl Iff.rfl hshown, ?_⟩
    show NeverBack state.stream.onUnsubscribed ↔ _
    rw [NeverBack, hshown, and_iff_left horder]
    rfl

/-- The step lemma: a step keeps the order exactly when it is allowed. -/
theorem step_spec (h : Trail job actions state past) (hloaded : Loaded job actions state)
    (hlistens : state.stream.closed = false → Listens state)
    (hjobId : state.stream.jobId = job.id) {action : Action} {after : State}
    (hrising : Rising (actions ++ [action])) (hstep : Step state action after) :
    (∃ past', Trail job (actions ++ [action]) after past') ∧
      (NeverBack after.stream ↔ NeverBack state.stream ∧ InOrder job actions state action) := by
  cases hstep with
  | start | updateProgress | retry | finish | settle =>
    exact ⟨⟨past, h.quiet hloaded _ rfl rfl⟩, neverBack_of_shown rfl trivial⟩
  | report _ _ progress =>
    exact ⟨⟨past, h.publish hloaded hrising rfl rfl (fun _ ↦ rfl) nofun⟩,
      neverBack_of_shown rfl trivial⟩
  | @announce outcome hworker =>
    refine ⟨⟨past, h.publish hloaded hrising rfl rfl ?_ ?_⟩, neverBack_of_shown rfl trivial⟩
    · intro hopen
      cases outcome with
      | ok result => exact absurd (Or.inl rfl) hopen
      | error error => exact absurd (Or.inr rfl) hopen
    · intro hcompleted
      cases outcome with
      | ok result => rfl
      | error error => cases hcompleted
  | load hhandler =>
    have hshown : shown (state.stream.onJob (some state.record.job)).1 = shown state.stream :=
      shown_write_of_silent rfl
    refine ⟨⟨past, h.of_shown hloaded ?_ (List.Subset.refl _) h.live rfl ?_ hshown⟩,
      neverBack_of_shown hshown trivial⟩
    · rw [heard_resume]
      exact h.sent.concat _
    · rw [hhandler]
      exact iff_of_false nofun nofun
  | @serve served connection hserve =>
    obtain ⟨-, -, hinbound⟩ := Connection.serve_eq_some hserve
    refine ⟨⟨past, h.quiet hloaded _ ?_ rfl⟩, neverBack_of_shown rfl trivial⟩
    rw [heard, hinbound, List.filterMap_append]
    exact List.append_nil _
  | @read item connection hread =>
    cases item with
    | reply ticket command =>
      obtain ⟨htrail, hkeeps⟩ := h.reply hloaded hread
      exact ⟨⟨past, htrail⟩, hkeeps⟩
    | message channel payload => exact h.read hloaded hlistens hjobId hread
  | @answer loaded hhandler =>
    have honState := Stream.onState_of_reading hhandler state.record.state
    have hshown : shown (state.stream.onState state.record.state) = shown state.stream := by
      rw [honState]
      rfl
    refine ⟨⟨past, h.of_shown hloaded (h.sent.concat _) (List.Subset.refl _) h.live ?_ ?_ hshown⟩,
      neverBack_of_shown hshown trivial⟩
    · rw [honState]
    · rw [honState, hhandler]
      exact iff_of_false nofun nofun
  | snapshot hhandler =>
    obtain ⟨htrail, hkeeps⟩ := h.snapshot hloaded hlistens hhandler
    exact ⟨⟨past, htrail⟩, hkeeps⟩

end Steps

/-! ### Whole runs -/

/-- The bar of the client never jumps back exactly when every step keeps the order. Assumes: the
worker reports progress in order. -/
theorem neverBack_iff_respects (job : Job) (actions : List Action) (state : State)
    (hrun : (system job).run actions = some state) (hrising : Rising actions) :
    NeverBack state.stream ↔ (system job).Respects (InOrder job) actions := by
  have hall : Loaded job actions state ∧ (Rising actions →
      (∃ past, Trail job actions state past) ∧
        (NeverBack state.stream ↔ (system job).Respects (InOrder job) actions)) := by
    refine run_induction (motive := fun actions state ↦ Loaded job actions state ∧
      (Rising actions → (∃ past, Trail job actions state past) ∧
        (NeverBack state.stream ↔ (system job).Respects (InOrder job) actions))) ?_ ?_ hrun
    · exact ⟨loaded_start job, fun _ ↦ ⟨⟨[], trail_start job⟩,
        iff_of_true List.Pairwise.nil (respects_nil _ _)⟩⟩
    · rintro actions before action after hbefore ⟨hloaded, ih⟩ hstep
      refine ⟨hloaded.step (step_cases hstep), fun hrising ↦ ?_⟩
      obtain ⟨⟨past, htrail⟩, hiff⟩ := ih hrising.of_concat
      have hjobId := (invariant_of_run hbefore).tracked.streamId
      obtain ⟨hafter, hkeeps⟩ := step_spec htrail hloaded (listens_of_run hbefore) hjobId hrising
        (step_cases hstep)
      rw [respects_concat_iff hbefore, ← hiff]
      exact ⟨hafter, hkeeps⟩
  exact (hall.2 hrising).2

/-- The snapshot is written before the worker reports. -/
def snapshotFirst : List Action :=
  [.load, .serve, .read, .answer, .snapshot, .start, .updateProgress (.number 10), .report 10,
    .read]

theorem neverBack_snapshotFirst :
    ∃ state, (system thumbnailJob).run snapshotFirst = some state ∧ Rising snapshotFirst ∧
      NeverBack state.stream := by
  have hrising : Rising snapshotFirst := List.pairwise_singleton _ _
  have hconnecting : (system thumbnailJob).Respects (InOrder thumbnailJob)
      ([.load, .serve] ++ [.read]) := by
    refine Respects.concat ?_ fun state hstate hdone ↦ ?_
    · exact ((respects_nil _ _).concat fun _ _ ↦ trivial).concat fun _ _ ↦ trivial
    · rw [← Option.some.inj hstate] at hdone
      cases hdone
  have hanswered : (system thumbnailJob).Respects (InOrder thumbnailJob)
      ([.load, .serve, .read] ++ [.answer]) := hconnecting.concat fun _ _ ↦ trivial
  have hwritten : (system thumbnailJob).Respects (InOrder thumbnailJob)
      ([.load, .serve, .read, .answer] ++ [.snapshot]) := by
    refine hanswered.concat fun state hstate _ _ _ _ _ _ event hevent ↦ ?_
    rw [← Option.some.inj hstate] at hevent
    exact absurd hevent List.not_mem_nil
  have hstarted : (system thumbnailJob).Respects (InOrder thumbnailJob)
      ([.load, .serve, .read, .answer, .snapshot] ++ [.start]) := hwritten.concat fun _ _ ↦ trivial
  have hupdated : (system thumbnailJob).Respects (InOrder thumbnailJob)
      ([.load, .serve, .read, .answer, .snapshot, .start] ++ [.updateProgress (.number 10)]) :=
    hstarted.concat fun _ _ ↦ trivial
  have hreported : (system thumbnailJob).Respects (InOrder thumbnailJob)
      ([.load, .serve, .read, .answer, .snapshot, .start, .updateProgress (.number 10)] ++
        [.report 10]) := hupdated.concat fun _ _ ↦ trivial
  have hrun : (system thumbnailJob).Respects (InOrder thumbnailJob) ([.load, .serve, .read, .answer,
      .snapshot, .start, .updateProgress (.number 10), .report 10] ++ [.read]) := by
    refine hreported.concat fun state hstate _ _ item hitem event hevent _ ↦ ?_
    rw [← Option.some.inj hstate] at hitem
    rw [← Option.some.inj hitem] at hevent
    obtain rfl := Option.some.inj hevent
    decide
  exact ⟨_, rfl, hrising,
    (neverBack_iff_respects thumbnailJob snapshotFirst _ rfl hrising).mpr hrun⟩

/-- The worker reports between the subscription and the snapshot. -/
theorem not_forall_neverBack :
    ¬ ∀ (job : Job) (actions : List Action) (state : State),
      (system job).run actions = some state → Rising actions → NeverBack state.stream := by
  intro h
  have hback := h thumbnailJob [.load, .serve, .start, .updateProgress (.number 10), .report 10,
    .read, .answer, .read, .snapshot] _ rfl (List.pairwise_singleton _ _)
  have hpair : [progressEvent thumbnailJob 10, snapshot thumbnailJob .active].Pairwise
    fun earlier later ↦ earlier.progress ≤ later.progress := hback
  have hzero : (10 : ℚ) ≤ 0 := (List.pairwise_cons.mp hpair).1 _ (List.mem_singleton_self _)
  exact absurd hzero (by decide)

end FileForge.Jobs.SnapshotOrder
