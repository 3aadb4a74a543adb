import FileForge.Foundation.Execution
import FileForge.Foundation.PubSub
import FileForge.Jobs.Events

/-!
# Watchers on the shared subscriber connection

Any number of calls of `subscribeToJob` on one subscriber connection, and any number of
`publishJobEvent`. A call registers its listener and sends `SUBSCRIBE`; the subscription is
established when the server runs the command, and the call returns its unsubscribe function when the
reply is read. The unsubscribe function removes the listener and sends `UNSUBSCRIBE`. A published
message carries its number in the run, so that it can be told when it was published.

`Undisturbed` is what a watcher may rely on: while it is established and not released it is called
with the valid events of its job, each once and in the order of publication, and with no event of
another job. The second half holds in every run (`sound_of_run`). The first half needs that
nobody releases a job that another watcher still watches (`Alone`): `UNSUBSCRIBE` takes the channel
from the whole connection, and the watchers that stay hear nothing more.
-/

set_option autoImplicit false
set_option relaxedAutoImplicit false

namespace FileForge.Jobs.Watchers

open Foundation.JsonValue Foundation.PubSub Foundation.Execution Shared.Contract Events

/-! ### The system -/

/-- One call of `subscribeToJob`. -/
structure Watcher where
  jobId : String
  /-- How many events had been published when the subscription was established. -/
  establishedAt : Option ℕ := none
  /-- The call has returned its unsubscribe function. -/
  returned : Bool := false
  listening : Bool := true
  /-- The events it was called with, under the numbers of their publications. -/
  calls : List (ℕ × JobEvent) := []

/-- The connection, on which a payload carries the number of its publication and a command the
number of the watcher that sent it; the watchers; and the published events. -/
structure State where
  connection : Connection String (ℕ × Json) ℕ
  watchers : List Watcher
  published : List JobEvent

inductive Action
  /-- A call of `subscribeToJob`. -/
  | watch (jobId : String)
  /-- A call of `publishJobEvent`. -/
  | publish (event : JobEvent)
  /-- The server runs the oldest command of the connection. -/
  | serve
  /-- The client reads what the server sent first. -/
  | read
  /-- A call of the unsubscribe function of a watcher. -/
  | unsubscribe (watcher : ℕ)

/-- The subscription is established: its first `SUBSCRIBE` has run. -/
def Watcher.establish (published : ℕ) (watcher : Watcher) : Watcher :=
  { watcher with establishedAt := watcher.establishedAt <|> some published }

def Watcher.return (watcher : Watcher) : Watcher := { watcher with returned := true }

def Watcher.release (watcher : Watcher) : Watcher := { watcher with listening := false }

/-- What a watcher of a job hears of an incoming item: an event with its number. -/
def heard (jobId : String) : Incoming String (ℕ × Json) ℕ → Option (ℕ × JobEvent)
  | .reply _ _ => none
  | .message channel (number, payload) =>
    (handler jobId channel (some payload)).map fun event ↦ (number, event)

/-- A watcher when the connection emits an item. -/
def Watcher.hear (item : Incoming String (ℕ × Json) ℕ) (watcher : Watcher) : Watcher :=
  if watcher.listening then
    { watcher with calls := watcher.calls ++ (heard watcher.jobId item).toList }
  else watcher

/-- A watcher when the server has run a command. -/
def Watcher.onServed (published number : ℕ) (watcher : Watcher) : ℕ × Command String → Watcher
  | (ticket, .subscribe _) => if ticket = number then watcher.establish published else watcher
  | (_, .unsubscribe _) => watcher

/-- A watcher when the client has read an item. -/
def Watcher.onRead (number : ℕ) (watcher : Watcher) : Incoming String (ℕ × Json) ℕ → Watcher
  | .reply ticket (.subscribe _) => if ticket = number then watcher.return else watcher
  | .reply _ (.unsubscribe _) => watcher
  | .message channel payload => watcher.hear (.message channel payload)

/-- A watcher when the unsubscribe function of one is called. -/
def Watcher.onUnsubscribe (called number : ℕ) (watcher : Watcher) : Watcher :=
  if called = number then watcher.release else watcher

def step (state : State) : Action → Option State
  | .watch jobId =>
    some { state with
      connection := state.connection.send state.watchers.length (.subscribe (channelFor jobId))
      watchers := state.watchers ++ [{ jobId := jobId }] }
  | .publish event =>
    some { state with
      connection := state.connection.publish (publication event).1
        (state.published.length, (publication event).2)
      published := state.published ++ [event] }
  | .serve =>
    state.connection.serve.map fun (served, connection) ↦ { state with
      connection := connection
      watchers := state.watchers.mapIdx fun number watcher ↦
        watcher.onServed state.published.length number served }
  | .read =>
    state.connection.read.map fun (item, connection) ↦ { state with
      connection := connection
      watchers := state.watchers.mapIdx fun number watcher ↦ watcher.onRead number item }
  | .unsubscribe number =>
    match state.watchers[number]? with
    | none => none
    | some watcher =>
      if watcher.returned then
        some { state with
          connection := state.connection.send number (.unsubscribe (channelFor watcher.jobId))
          watchers := state.watchers.mapIdx (Watcher.onUnsubscribe number) }
      else none

/-- The shared connection, before the first call. -/
def system : System State Action := ⟨⟨.fresh, [], []⟩, step⟩

/-! ### What a watcher may rely on -/

/-- The valid events of a job among the published ones, from a number on. -/
def owed (published : List JobEvent) (jobId : String) (since : ℕ) : List (ℕ × JobEvent) :=
  (published.zipIdx.map Prod.swap).filter fun entry ↦
    decide (since ≤ entry.1 ∧ entry.2.jobId = jobId ∧ entry.2.Valid)

/-- What a watcher of a job will still hear of what is in flight, from a number on. -/
def inFlight (inbound : List (Incoming String (ℕ × Json) ℕ)) (jobId : String) (since : ℕ) :
    List (ℕ × JobEvent) :=
  (inbound.filterMap (heard jobId)).filter fun entry ↦ decide (since ≤ entry.1)

/-- What a watcher has been called with, from a number on. -/
def Watcher.calledSince (watcher : Watcher) (since : ℕ) : List (ℕ × JobEvent) :=
  watcher.calls.filter fun entry ↦ decide (since ≤ entry.1)

/-- A watcher that is established and not released has been called, or will be called with what is
in flight, with exactly the valid events of its job published since; and no watcher was ever called
with an event of another job. -/
def Undisturbed (state : State) : Prop :=
  ∀ watcher ∈ state.watchers,
    (∀ since ∈ watcher.establishedAt, watcher.listening →
      watcher.calledSince since ++ inFlight state.connection.inbound watcher.jobId since =
        owed state.published watcher.jobId since) ∧
    ∀ call ∈ watcher.calls, call.2.jobId = watcher.jobId ∧
      state.published[call.1]? = some call.2

/-- No other watcher listens for the job of a watcher that is released. -/
def Alone (state : State) : Action → Prop
  | .unsubscribe number =>
    ∀ watcher, state.watchers[number]? = some watcher →
      ∀ other remaining, state.watchers[other]? = some remaining → other ≠ number →
        remaining.listening → remaining.jobId ≠ watcher.jobId
  | _ => True

/-! ### What a listener hears -/

@[simp] theorem heard_reply (jobId : String) (ticket : ℕ) (command : Command String) :
    heard jobId (.reply ticket command) = none := rfl

/-- A published event is heard under its number, by the listeners of its job, when it is valid. -/
theorem heard_publication (jobId : String) (event : JobEvent) (number : ℕ) :
    heard jobId (.message (publication event).1 (number, (publication event).2)) =
      if event.jobId = jobId ∧ event.Valid then some (number, event) else none := by
  rw [heard, handler_publication]
  split_ifs <;> rfl

@[simp] theorem owed_self (published : List JobEvent) (jobId : String) :
    owed published jobId published.length = [] := by
  rw [owed, List.filter_eq_nil_iff]
  intro entry hentry
  obtain ⟨⟨event, number⟩, hmem, rfl⟩ := List.mem_map.mp hentry
  have hlt : number < published.length := by simpa using List.snd_lt_of_mem_zipIdx hmem
  simp [Nat.not_le.mpr hlt]

/-- One more publication is owed when it is of the job and valid. -/
theorem owed_concat {published : List JobEvent} {since : ℕ} (h : since ≤ published.length)
    (jobId : String) (event : JobEvent) :
    owed (published ++ [event]) jobId since =
      owed published jobId since ++
        (if event.jobId = jobId ∧ event.Valid then [(published.length, event)] else []) := by
  rw [owed, List.zipIdx_append, List.map_append, List.filter_append]
  congr 1
  by_cases hevent : event.jobId = jobId ∧ event.Valid
  · simp [hevent, h]
  · simp [hevent]

theorem inFlight_cons (item : Incoming String (ℕ × Json) ℕ)
    (inbound : List (Incoming String (ℕ × Json) ℕ)) (jobId : String) (since : ℕ) :
    inFlight (item :: inbound) jobId since =
      (heard jobId item).toList.filter (fun entry ↦ decide (since ≤ entry.1)) ++
        inFlight inbound jobId since := by
  rw [inFlight, ← List.singleton_append, List.filterMap_append, List.filter_append]
  cases hitem : heard jobId item <;> simp [inFlight, hitem]

theorem inFlight_concat (inbound : List (Incoming String (ℕ × Json) ℕ))
    (item : Incoming String (ℕ × Json) ℕ) (jobId : String) (since : ℕ) :
    inFlight (inbound ++ [item]) jobId since =
      inFlight inbound jobId since ++
        (heard jobId item).toList.filter (fun entry ↦ decide (since ≤ entry.1)) := by
  rw [inFlight, List.filterMap_append, List.filter_append]
  cases hitem : heard jobId item <;> simp [inFlight, hitem]

/-! ### What holds in every run -/

/-- A watcher was established at a number that has been reached, and was called with published
events of its job only. -/
structure Watcher.Sound (published : List JobEvent) (watcher : Watcher) : Prop where
  established : ∀ since ∈ watcher.establishedAt, since ≤ published.length
  calls : ∀ call ∈ watcher.calls, call.2.jobId = watcher.jobId ∧
    published[call.1]? = some call.2

theorem Watcher.establish_of_some {watcher : Watcher} (published : ℕ) {earlier : ℕ}
    (h : watcher.establishedAt = some earlier) : watcher.establish published = watcher := by
  obtain ⟨jobId, establishedAt, returned, listening, calls⟩ := watcher
  obtain rfl : establishedAt = some earlier := h
  rfl

/-- The watchers are sound, a message in flight is a publication under its number, and a command in
the queue was sent by the watcher whose number it has, a `SUBSCRIBE` for its own job. -/
structure Sound (state : State) : Prop where
  watchers : ∀ watcher ∈ state.watchers, watcher.Sound state.published
  inbound : ∀ channel number payload,
    .message channel (number, payload) ∈ state.connection.inbound →
      ∃ event, state.published[number]? = some event ∧ (channel, payload) = publication event
  tickets : ∀ ticket command, (ticket, command) ∈ state.connection.sent →
    ∃ watcher, state.watchers[ticket]? = some watcher ∧
      ∀ channel, command = .subscribe channel → channel = channelFor watcher.jobId

/-- An item in flight is heard as a published event of the job. -/
theorem Sound.heard {state : State} (h : Sound state) {item : Incoming String (ℕ × Json) ℕ}
    (hitem : item ∈ state.connection.inbound) {jobId : String} {call : ℕ × JobEvent}
    (hheard : call ∈ Watchers.heard jobId item) :
    call.2.jobId = jobId ∧ state.published[call.1]? = some call.2 := by
  cases item with
  | reply ticket command => cases hheard
  | message channel payload =>
    obtain ⟨number, value⟩ := payload
    obtain ⟨event, hnumber, hpublication⟩ := h.inbound channel number value hitem
    have hchannel : channel = (publication event).1 := congrArg Prod.fst hpublication
    have hvalue : value = (publication event).2 := congrArg Prod.snd hpublication
    rw [hchannel, hvalue, heard_publication] at hheard
    split_ifs at hheard with hevent
    · obtain rfl := Option.mem_some_iff.mp hheard
      exact ⟨hevent.1, hnumber⟩
    · cases hheard

/-- Further publications keep a watcher sound. -/
theorem Watcher.Sound.concat {published : List JobEvent} {watcher : Watcher}
    (h : watcher.Sound published) (event : JobEvent) : watcher.Sound (published ++ [event]) := by
  constructor
  · intro since hsince
    rw [List.length_append]
    exact Nat.le_add_right_of_le (h.established since hsince)
  · intro call hcall
    obtain ⟨hjob, hnumber⟩ := h.calls call hcall
    refine ⟨hjob, ?_⟩
    rw [List.getElem?_append_left (List.getElem?_eq_some_iff.mp hnumber).1]
    exact hnumber

theorem sound_watch {state : State} (h : Sound state) {jobId : String} {after : State}
    (hstep : step state (.watch jobId) = some after) : Sound after := by
  obtain rfl := Option.some.inj hstep
  refine ⟨?_, h.inbound, ?_⟩
  · intro watcher hwatcher
    rcases List.mem_append.mp hwatcher with hold | hnew
    · exact h.watchers watcher hold
    · obtain rfl := List.mem_singleton.mp hnew
      exact ⟨fun _ hsince ↦ (Option.not_mem_none _ hsince).elim,
        fun _ hcall ↦ (List.not_mem_nil hcall).elim⟩
  · intro ticket command hsent
    rcases List.mem_append.mp hsent with hold | hnew
    · obtain ⟨watcher, hwatcher, hcommand⟩ := h.tickets ticket command hold
      refine ⟨watcher, ?_, hcommand⟩
      rw [List.getElem?_append_left (List.getElem?_eq_some_iff.mp hwatcher).1]
      exact hwatcher
    · obtain ⟨rfl, rfl⟩ := Prod.mk.inj (List.mem_singleton.mp hnew)
      exact ⟨{ jobId := jobId }, List.getElem?_concat_length, fun channel hcommand ↦
        (Command.subscribe.inj hcommand).symm⟩

theorem sound_publish {state : State} (h : Sound state) {event : JobEvent} {after : State}
    (hstep : step state (.publish event) = some after) : Sound after := by
  obtain rfl := Option.some.inj hstep
  refine ⟨fun watcher hwatcher ↦ (h.watchers watcher hwatcher).concat event, ?_, ?_⟩
  · intro channel number payload hitem
    rcases Connection.mem_publish_inbound hitem with hold | hnew
    · obtain ⟨earlier, hnumber, hpublication⟩ := h.inbound channel number payload hold
      refine ⟨earlier, ?_, hpublication⟩
      rw [List.getElem?_append_left (List.getElem?_eq_some_iff.mp hnumber).1]
      exact hnumber
    · obtain ⟨rfl, hpayload⟩ := Incoming.message.inj hnew
      obtain ⟨rfl, rfl⟩ := Prod.mk.inj hpayload
      exact ⟨event, List.getElem?_concat_length, rfl⟩
  · intro ticket command hsent
    rw [Connection.publish_sent] at hsent
    exact h.tickets ticket command hsent

/-- A step that changes the watchers one by one keeps soundness. Assumes: the changes keep the job
and soundness, no message comes in, and no `SUBSCRIBE` is sent. -/
theorem Sound.of_mapIdx {state after : State} (h : Sound state)
    {change : ℕ → Watcher → Watcher} (hpublished : after.published = state.published)
    (hwatchers : after.watchers = state.watchers.mapIdx change)
    (hjob : ∀ number watcher, (change number watcher).jobId = watcher.jobId)
    (hsound : ∀ number watcher, watcher.Sound state.published →
      (change number watcher).Sound state.published)
    (hinbound : ∀ channel payload, .message channel payload ∈ after.connection.inbound →
      .message channel payload ∈ state.connection.inbound)
    (hsent : ∀ ticket command, (ticket, command) ∈ after.connection.sent →
      (ticket, command) ∈ state.connection.sent ∨
        ticket < state.watchers.length ∧ ∀ channel, command ≠ .subscribe channel) :
    Sound after := by
  refine ⟨?_, ?_, ?_⟩
  · intro watcher hmem
    rw [hwatchers, List.mem_mapIdx] at hmem
    obtain ⟨number, hnumber, rfl⟩ := hmem
    rw [hpublished]
    exact hsound number _ (h.watchers _ (List.getElem_mem hnumber))
  · intro channel number payload hitem
    rw [hpublished]
    exact h.inbound channel number payload (hinbound _ _ hitem)
  · intro ticket command hmem
    rw [hwatchers]
    rcases hsent ticket command hmem with hold | ⟨hlt, hcommand⟩
    · obtain ⟨watcher, hwatcher, hchannel⟩ := h.tickets ticket command hold
      refine ⟨change ticket watcher, ?_, ?_⟩
      · rw [List.getElem?_mapIdx, hwatcher]
        rfl
      · rw [hjob]
        exact hchannel
    · refine ⟨change ticket state.watchers[ticket], ?_, fun channel hsub ↦
        (hcommand channel hsub).elim⟩
      rw [List.getElem?_mapIdx, List.getElem?_eq_getElem hlt]
      rfl

theorem Watcher.onServed_jobId (published number : ℕ) (watcher : Watcher)
    (served : ℕ × Command String) :
    (watcher.onServed published number served).jobId = watcher.jobId := by
  obtain ⟨ticket, command⟩ := served
  cases command with
  | subscribe channel =>
    rw [Watcher.onServed]
    split_ifs <;> rfl
  | unsubscribe channel => rfl

theorem Watcher.onRead_jobId (number : ℕ) (watcher : Watcher)
    (item : Incoming String (ℕ × Json) ℕ) :
    (watcher.onRead number item).jobId = watcher.jobId := by
  unfold Watcher.onRead Watcher.hear
  split
  · split_ifs <;> rfl
  · rfl
  · split_ifs <;> rfl

theorem Watcher.onUnsubscribe_jobId (called number : ℕ) (watcher : Watcher) :
    (watcher.onUnsubscribe called number).jobId = watcher.jobId := by
  rw [Watcher.onUnsubscribe]
  split_ifs <;> rfl

/-- A command that runs establishes its watcher now, or changes nothing of what it was called
with. -/
theorem Watcher.Sound.onServed {published : List JobEvent} {watcher : Watcher}
    (h : watcher.Sound published) (number : ℕ) (served : ℕ × Command String) :
    (watcher.onServed published.length number served).Sound published := by
  unfold Watcher.onServed
  split
  · split_ifs
    · refine ⟨fun since hsince ↦ ?_, h.calls⟩
      cases hestablished : watcher.establishedAt with
      | none =>
        rw [Watcher.establish, hestablished] at hsince
        exact (Option.some.inj hsince).ge
      | some earlier =>
        rw [Watcher.establish, hestablished] at hsince
        exact h.established since (hestablished.trans hsince)
    · exact h
  · exact h

/-- A watcher that hears an item in flight is called with a published event of its job. -/
theorem Sound.hear {state : State} (h : Sound state) {item : Incoming String (ℕ × Json) ℕ}
    (hitem : item ∈ state.connection.inbound) {watcher : Watcher}
    (hwatcher : watcher.Sound state.published) : (watcher.hear item).Sound state.published := by
  rw [Watcher.hear]
  split_ifs
  · refine ⟨hwatcher.established, fun call hcall ↦ ?_⟩
    rcases List.mem_append.mp hcall with hold | hnew
    · exact hwatcher.calls call hold
    · exact h.heard hitem (Option.mem_toList.mp hnew)
  · exact hwatcher

theorem sound_serve {state : State} (h : Sound state) {after : State}
    (hstep : step state .serve = some after) : Sound after := by
  obtain ⟨⟨⟨ticket, command⟩, connection⟩, hserve, rfl⟩ := Option.map_eq_some_iff.mp hstep
  obtain ⟨hsent, -, hinbound⟩ := Connection.serve_eq_some hserve
  refine h.of_mapIdx rfl rfl (fun number watcher ↦ Watcher.onServed_jobId _ _ _ _)
    (fun number watcher hwatcher ↦ hwatcher.onServed number _) ?_ ?_
  · intro channel payload hitem
    show _ ∈ state.connection.inbound
    rw [hinbound, List.mem_append, List.mem_singleton] at hitem
    exact hitem.resolve_right nofun
  · intro other later hmem
    refine Or.inl ?_
    rw [hsent]
    exact List.mem_cons_of_mem _ hmem

theorem sound_read {state : State} (h : Sound state) {after : State}
    (hstep : step state .read = some after) : Sound after := by
  obtain ⟨⟨item, connection⟩, hread, rfl⟩ := Option.map_eq_some_iff.mp hstep
  obtain ⟨hinbound, -, hsent⟩ := Connection.read_eq_some hread
  have hitem : item ∈ state.connection.inbound := by
    rw [hinbound]
    exact List.mem_cons_self
  refine h.of_mapIdx rfl rfl (fun number watcher ↦ Watcher.onRead_jobId _ _ _) ?_ ?_ ?_
  · intro number watcher hwatcher
    unfold Watcher.onRead
    split
    · split_ifs
      · exact ⟨hwatcher.established, hwatcher.calls⟩
      · exact hwatcher
    · exact hwatcher
    · exact h.hear hitem hwatcher
  · intro channel payload hmem
    rw [hinbound]
    exact List.mem_cons_of_mem _ hmem
  · intro ticket command hmem
    exact Or.inl (hsent ▸ hmem)

/-- The unsubscribe function of a watcher: it has been returned, the listener goes and the command
is sent. -/
theorem step_unsubscribe {state after : State} {called : ℕ}
    (hstep : step state (.unsubscribe called) = some after) :
    ∃ watcher, state.watchers[called]? = some watcher ∧ watcher.returned ∧
      after = { state with
        connection := state.connection.send called (.unsubscribe (channelFor watcher.jobId))
        watchers := state.watchers.mapIdx (Watcher.onUnsubscribe called) } := by
  simp only [step] at hstep
  split at hstep
  · cases hstep
  · rename_i watcher hwatcher
    split_ifs at hstep with hreturned
    exact ⟨watcher, hwatcher, hreturned, (Option.some.inj hstep).symm⟩

theorem sound_unsubscribe {state : State} (h : Sound state) {called : ℕ} {after : State}
    (hstep : step state (.unsubscribe called) = some after) : Sound after := by
  obtain ⟨watcher, hwatcher, -, rfl⟩ := step_unsubscribe hstep
  refine h.of_mapIdx rfl rfl (fun _ _ ↦ Watcher.onUnsubscribe_jobId _ _ _) ?_
    (fun _ _ hmem ↦ hmem) ?_
  · intro number other hother
    rw [Watcher.onUnsubscribe]
    split_ifs
    · exact ⟨hother.established, hother.calls⟩
    · exact hother
  · intro ticket command hmem
    rcases List.mem_append.mp hmem with hold | hnew
    · exact Or.inl hold
    · obtain ⟨rfl, rfl⟩ := Prod.mk.inj (List.mem_singleton.mp hnew)
      exact Or.inr ⟨(List.getElem?_eq_some_iff.mp hwatcher).1, fun _ ↦ nofun⟩

theorem sound_step {state : State} (h : Sound state) {action : Action} {after : State}
    (hstep : step state action = some after) : Sound after := by
  cases action with
  | watch jobId => exact sound_watch h hstep
  | publish event => exact sound_publish h hstep
  | serve => exact sound_serve h hstep
  | read => exact sound_read h hstep
  | unsubscribe called => exact sound_unsubscribe h hstep

theorem sound_start : Sound system.start :=
  ⟨fun _ hmem ↦ (List.not_mem_nil hmem).elim, fun _ _ _ hmem ↦ (List.not_mem_nil hmem).elim,
    fun _ _ hmem ↦ (List.not_mem_nil hmem).elim⟩

/-- In every run a watcher is called with published events of its job only. -/
theorem sound_of_run {actions : List Action} {state : State}
    (hrun : system.run actions = some state) : Sound state :=
  System.run_induction (motive := fun _ state ↦ Sound state) sound_start
    (fun _ _ _ _ _ h hstep ↦ sound_step h hstep) hrun

/-! ### What holds while nobody releases a watched job -/

/-- A listening watcher: its `SUBSCRIBE` will be obeyed, or it is established, its channel stays
subscribed, and what it was called with since and what is in flight is what it is owed. -/
structure Watcher.Attended (connection : Connection String (ℕ × Json) ℕ)
    (published : List JobEvent) (number : ℕ) (watcher : Watcher) : Prop where
  awaited : watcher.establishedAt = none →
    connection.Awaited number (channelFor watcher.jobId)
  covered : ∀ since ∈ watcher.establishedAt, connection.Covered (channelFor watcher.jobId)
  exactly : ∀ since ∈ watcher.establishedAt,
    watcher.calledSince since ++ inFlight connection.inbound watcher.jobId since =
      owed published watcher.jobId since

/-- Every listening watcher is attended to. -/
def Attended (state : State) : Prop :=
  ∀ (number : ℕ) (watcher : Watcher), state.watchers[number]? = some watcher →
    watcher.listening → watcher.Attended state.connection state.published number

theorem attended_watch {state : State} (h : Attended state) (hsound : Sound state)
    {jobId : String} {after : State} (hstep : step state (.watch jobId) = some after) :
    Attended after := by
  obtain rfl := Option.some.inj hstep
  intro number watcher hwatcher hlistening
  rcases Nat.lt_or_ge number state.watchers.length with hlt | hge
  · have hold : state.watchers[number]? = some watcher := by
      rw [← hwatcher]
      exact (List.getElem?_append_left hlt).symm
    have hattended := h number watcher hold hlistening
    exact ⟨fun hnone ↦ (hattended.awaited hnone).send _ nofun,
      fun since hsince ↦ (hattended.covered since hsince).send _ nofun,
      hattended.exactly⟩
  · have hnew : [({ jobId := jobId } : Watcher)][number - state.watchers.length]? =
        some watcher := by
      rw [← hwatcher]
      exact (List.getElem?_append_right hge).symm
    obtain ⟨hindex, hself⟩ := List.getElem?_eq_some_iff.mp hnew
    have hnumber : number = state.watchers.length := by
      simp only [List.length_singleton] at hindex
      omega
    subst hnumber
    obtain rfl : watcher = { jobId := jobId } := by simpa using hself.symm
    refine ⟨fun _ ↦ Connection.awaited_of_send (fun command hmem ↦ ?_) _,
      fun _ hsince ↦ (Option.not_mem_none _ hsince).elim,
      fun _ hsince ↦ (Option.not_mem_none _ hsince).elim⟩
    obtain ⟨other, hother, -⟩ := hsound.tickets _ _ hmem
    exact absurd (List.getElem?_eq_some_iff.mp hother).1 (Nat.lt_irrefl _)

theorem attended_publish {state : State} (h : Attended state) (hsound : Sound state)
    {event : JobEvent} {after : State} (hstep : step state (.publish event) = some after) :
    Attended after := by
  obtain rfl := Option.some.inj hstep
  intro number watcher hwatcher hlistening
  have hattended := h number watcher hwatcher hlistening
  refine ⟨fun hnone ↦ (hattended.awaited hnone).of_publish _ _,
    fun since hsince ↦ (hattended.covered since hsince).of_publish _ _, fun since hsince ↦ ?_⟩
  have hle : since ≤ state.published.length :=
    (hsound.watchers watcher (List.mem_of_getElem? hwatcher)).established since hsince
  have hexact := hattended.exactly since hsince
  by_cases hjob : event.jobId = watcher.jobId
  · -- the channel is covered, so the message is sent whether or not it is valid
    have hcovered : state.connection.Covered (publication event).1 := by
      show state.connection.Covered (channelFor event.jobId)
      rw [hjob]
      exact hattended.covered since hsince
    rw [hcovered.publish, inFlight_concat, heard_publication, owed_concat hle,
      ← List.append_assoc, hexact]
    by_cases hvalid : event.Valid
    · simp [hjob, hvalid, hle]
    · simp [hvalid]
  · -- a message of another job is not heard, whether or not its channel is subscribed
    have hsame : inFlight (state.connection.publish (publication event).1
        (state.published.length, (publication event).2)).inbound watcher.jobId since =
          inFlight state.connection.inbound watcher.jobId since := by
      unfold Connection.publish
      split_ifs
      · rw [inFlight_concat, heard_publication, if_neg fun hevent ↦ hjob hevent.1]
        simp
      · rfl
    rw [hsame, owed_concat hle, if_neg fun hevent ↦ hjob hevent.1, List.append_nil]
    exact hexact

/-- At the moment of establishment nothing is owed, and everything heard so far or in flight was
published before. -/
theorem calledSince_append_inFlight_self {state : State} (h : Sound state) {watcher : Watcher}
    (hwatcher : watcher ∈ state.watchers) :
    watcher.calledSince state.published.length ++
      inFlight state.connection.inbound watcher.jobId state.published.length = [] := by
  have hbefore : ∀ call : ℕ × JobEvent, state.published[call.1]? = some call.2 →
      decide (state.published.length ≤ call.1) = false := by
    intro call hcall
    rw [decide_eq_false_iff_not, Nat.not_le]
    exact (List.getElem?_eq_some_iff.mp hcall).1
  rw [List.append_eq_nil_iff]
  constructor
  · rw [Watcher.calledSince, List.filter_eq_nil_iff]
    intro call hcall
    rw [hbefore call ((h.watchers watcher hwatcher).calls call hcall).2]
    exact Bool.false_ne_true
  · rw [inFlight, List.filter_eq_nil_iff]
    intro call hcall
    obtain ⟨item, hitem, hheard⟩ := List.mem_filterMap.mp hcall
    rw [hbefore call (h.heard hitem hheard).2]
    exact Bool.false_ne_true

theorem attended_serve {state : State} (h : Attended state) (hsound : Sound state)
    {after : State} (hstep : step state .serve = some after) : Attended after := by
  obtain ⟨⟨⟨ticket, command⟩, connection⟩, hserve, rfl⟩ := Option.map_eq_some_iff.mp hstep
  obtain ⟨hsent, -, hinbound⟩ := Connection.serve_eq_some hserve
  intro number changed hchanged hlistening
  rw [List.getElem?_mapIdx] at hchanged
  obtain ⟨watcher, hwatcher, rfl⟩ := Option.map_eq_some_iff.mp hchanged
  have hmem : watcher ∈ state.watchers := List.mem_of_getElem? hwatcher
  have hinFlight : ∀ since, inFlight connection.inbound watcher.jobId since =
      inFlight state.connection.inbound watcher.jobId since := by
    intro since
    rw [hinbound, inFlight_concat, heard_reply]
    simp
  have hkeep : watcher.listening → watcher.Attended connection state.published number := by
    intro hlistening
    have hattended := h number watcher hwatcher hlistening
    refine ⟨fun hnone ↦ (hattended.awaited hnone).serve hserve,
      fun since hsince ↦ (hattended.covered since hsince).serve hserve, fun since hsince ↦ ?_⟩
    rw [hinFlight]
    exact hattended.exactly since hsince
  cases command with
  | unsubscribe channel => exact hkeep hlistening
  | subscribe channel =>
    by_cases hticket : ticket = number
    · subst hticket
      have hestablish : watcher.onServed state.published.length ticket
          (ticket, .subscribe channel) = watcher.establish state.published.length := if_pos rfl
      rw [hestablish] at hlistening ⊢
      cases hestablished : watcher.establishedAt with
      | some earlier =>
        rw [watcher.establish_of_some _ hestablished] at hlistening ⊢
        exact hkeep hlistening
      | none =>
        have hhead : (ticket, Command.subscribe channel) ∈ state.connection.sent := by
          rw [hsent]
          exact List.mem_cons_self
        obtain ⟨sender, hsender, hchannel⟩ := hsound.tickets ticket _ hhead
        obtain rfl : sender = watcher := Option.some.inj (hsender.symm.trans hwatcher)
        obtain rfl := hchannel channel rfl
        have hawaited := (h ticket sender hwatcher hlistening).awaited hestablished
        refine ⟨fun hnone ↦ ?_, fun _ _ ↦ hawaited.covered_of_serve hserve, fun since hsince ↦ ?_⟩
        · rw [Watcher.establish, hestablished] at hnone
          cases hnone
        · rw [Watcher.establish, hestablished] at hsince
          obtain rfl := Option.some.inj hsince
          show sender.calledSince _ ++ inFlight connection.inbound sender.jobId _ = owed _ _ _
          rw [hinFlight, calledSince_append_inFlight_self hsound hmem, owed_self]
    · have hother : watcher.onServed state.published.length number
          (ticket, .subscribe channel) = watcher := if_neg hticket
      rw [hother] at hlistening ⊢
      exact hkeep hlistening

/-- What a watcher is called with when it hears an item moves from what is in flight to its
calls. -/
theorem calledSince_hear {watcher : Watcher} (hlistening : watcher.listening)
    (item : Incoming String (ℕ × Json) ℕ) (inbound : List (Incoming String (ℕ × Json) ℕ))
    (since : ℕ) :
    (watcher.hear item).calledSince since ++ inFlight inbound watcher.jobId since =
      watcher.calledSince since ++ inFlight (item :: inbound) watcher.jobId since := by
  rw [Watcher.hear, if_pos hlistening, inFlight_cons, ← List.append_assoc]
  congr 1
  exact List.filter_append _ _

theorem attended_read {state : State} (h : Attended state) {after : State}
    (hstep : step state .read = some after) : Attended after := by
  obtain ⟨⟨item, connection⟩, hread, rfl⟩ := Option.map_eq_some_iff.mp hstep
  obtain ⟨hinbound, -, -⟩ := Connection.read_eq_some hread
  intro number changed hchanged hlistening
  rw [List.getElem?_mapIdx] at hchanged
  obtain ⟨watcher, hwatcher, rfl⟩ := Option.map_eq_some_iff.mp hchanged
  cases item with
  | message channel payload =>
    have hbefore : watcher.listening := by
      unfold Watcher.onRead Watcher.hear at hlistening
      split_ifs at hlistening with hyes
      · exact hyes
      · exact hlistening
    have hattended := h number watcher hwatcher hbefore
    have hkept : watcher.hear (.message channel payload) = { watcher with
        calls := watcher.calls ++ (heard watcher.jobId (.message channel payload)).toList } :=
      if_pos hbefore
    rw [show watcher.onRead number (.message channel payload) =
      watcher.hear (.message channel payload) from rfl]
    refine ⟨fun hnone ↦ ?_, fun since hsince ↦ ?_, fun since hsince ↦ ?_⟩
    · rw [hkept] at hnone ⊢
      exact (hattended.awaited hnone).read hread
    · rw [hkept] at hsince ⊢
      exact (hattended.covered since hsince).read hread
    · rw [hkept] at hsince
      have hexact := hattended.exactly since hsince
      rw [hinbound, ← calledSince_hear hbefore] at hexact
      rw [hkept] at hexact ⊢
      exact hexact
  | reply ticket command =>
    have hsame : ∀ since, inFlight state.connection.inbound watcher.jobId since =
        inFlight connection.inbound watcher.jobId since := by
      intro since
      rw [hinbound, inFlight_cons]
      rfl
    have hkeep : watcher.listening → watcher.Attended connection state.published number := by
      intro hlistening
      have hattended := h number watcher hwatcher hlistening
      refine ⟨fun hnone ↦ (hattended.awaited hnone).read hread,
        fun since hsince ↦ (hattended.covered since hsince).read hread, fun since hsince ↦ ?_⟩
      rw [← hsame]
      exact hattended.exactly since hsince
    cases command with
    | unsubscribe channel => exact hkeep hlistening
    | subscribe channel =>
      rw [Watcher.onRead] at hlistening ⊢
      split_ifs at hlistening ⊢
      · obtain ⟨hawaited, hcovered, hexact⟩ := hkeep hlistening
        exact ⟨hawaited, hcovered, hexact⟩
      · exact hkeep hlistening

/-- Assumes: no other watcher listens for the job of the watcher that is released. -/
theorem attended_unsubscribe {state : State} (h : Attended state) {called : ℕ}
    (halone : Alone state (.unsubscribe called)) {after : State}
    (hstep : step state (.unsubscribe called) = some after) : Attended after := by
  obtain ⟨released, hreleased, -, rfl⟩ := step_unsubscribe hstep
  intro number changed hchanged hlistening
  rw [List.getElem?_mapIdx] at hchanged
  obtain ⟨watcher, hwatcher, rfl⟩ := Option.map_eq_some_iff.mp hchanged
  rw [Watcher.onUnsubscribe] at hlistening ⊢
  split_ifs at hlistening ⊢ with hcalled
  · cases hlistening
  · have hjob : watcher.jobId ≠ released.jobId :=
      halone released hreleased number watcher hwatcher (Ne.symm hcalled) hlistening
    have hcommand : Command.unsubscribe (channelFor released.jobId) ≠
        .unsubscribe (channelFor watcher.jobId) := fun heq ↦
      hjob (channelFor_injective (Command.unsubscribe.inj heq)).symm
    have hattended := h number watcher hwatcher hlistening
    exact ⟨fun hnone ↦ (hattended.awaited hnone).send called hcommand,
      fun since hsince ↦ (hattended.covered since hsince).send called hcommand,
      hattended.exactly⟩

theorem attended_step {state : State} (h : Attended state) (hsound : Sound state)
    {action : Action} (halone : Alone state action) {after : State}
    (hstep : step state action = some after) : Attended after := by
  cases action with
  | watch jobId => exact attended_watch h hsound hstep
  | publish event => exact attended_publish h hsound hstep
  | serve => exact attended_serve h hsound hstep
  | read => exact attended_read h hstep
  | unsubscribe called => exact attended_unsubscribe h halone hstep

theorem undisturbed_of_attended {state : State} (h : Attended state) (hsound : Sound state) :
    Undisturbed state := by
  intro watcher hwatcher
  obtain ⟨number, hnumber⟩ := List.mem_iff_getElem?.mp hwatcher
  exact ⟨fun since hsince hlistening ↦ (h number watcher hnumber hlistening).exactly since hsince,
    (hsound.watchers watcher hwatcher).calls⟩

/-- Watchers do not disturb each other in any run in which nobody releases a job that another
watcher listens for. Assumes: a run, and that every release in it left no other watcher of the same
job listening. -/
theorem undisturbed_of_alone {actions : List Action} {state : State}
    (hrun : system.run actions = some state) (halone : system.Meets Alone actions) :
    Undisturbed state := by
  have hboth : Attended state ∧ Sound state := by
    refine System.run_induction_of_meets (motive := fun state ↦ Attended state ∧ Sound state)
      ⟨?_, sound_start⟩ ?_ hrun halone
    · intro number watcher hwatcher
      cases hwatcher
    · rintro before action after ⟨hattended, hsound⟩ hallowed hstep
      exact ⟨attended_step hattended hsound hallowed hstep, sound_step hsound hstep⟩
  exact undisturbed_of_attended hboth.1 hboth.2

/-- Two watchers of different jobs; the first is called and released. -/
def separateJobs : List Action :=
  [.watch "1", .watch "2", .serve, .serve, .read, .read,
    .publish { jobId := "1", state := .processing, progress := 50 }, .read,
    .publish { jobId := "2", state := .processing, progress := 20 }]

theorem undisturbed_separateJobs :
    ∃ state, system.run (separateJobs ++ [.unsubscribe 0]) = some state ∧ Undisturbed state := by
  have hmeets : system.Meets Alone (separateJobs ++ [.unsubscribe 0]) := by
    refine System.Meets.concat (System.meets_of_forall ?_) ?_
    · intro action haction state
      cases action with
      | unsubscribe called => simp [separateJobs] at haction
      | _ => trivial
    · rintro state hrun watcher hwatcher other remaining hremaining hother -
      have hjobs : ["1", "2"] = state.watchers.map Watcher.jobId := by
        have hmap := congrArg
          (Option.map fun reached : State ↦ reached.watchers.map Watcher.jobId) hrun
        exact Option.some.inj hmap
      have hfirst : ["1", "2"][0]? = some watcher.jobId := by
        rw [hjobs, List.getElem?_map, hwatcher]
        rfl
      have hsecond : ["1", "2"][other]? = some remaining.jobId := by
        rw [hjobs, List.getElem?_map, hremaining]
        rfl
      obtain rfl : other = 1 := by
        have hlt := (List.getElem?_eq_some_iff.mp hsecond).1
        simp only [List.length_cons, List.length_nil] at hlt
        omega
      rw [← Option.some.inj hfirst, ← Option.some.inj hsecond]
      decide
  obtain ⟨state, hrun⟩ : ∃ state, system.run (separateJobs ++ [.unsubscribe 0]) = some state :=
    ⟨_, rfl⟩
  exact ⟨state, hrun, undisturbed_of_alone hrun hmeets⟩

/-- Two watchers of one job; the first is released, and then the job completes. -/
def sharedJob : List Action :=
  [.watch "1", .watch "1", .serve, .serve, .read, .read, .unsubscribe 0, .serve,
    .publish { jobId := "1", state := .completed, progress := 100 }]

/-- The second watcher of `sharedJob` is established and not released, but is not called with the
completion of its job, and nothing is on its way to it. -/
theorem not_undisturbed_sharedJob :
    ∃ state, system.run sharedJob = some state ∧ ¬ Undisturbed state := by
  refine ⟨_, rfl, fun h ↦ ?_⟩
  have hexact := (h _ (List.mem_cons_of_mem _ List.mem_cons_self)).1 0 rfl rfl
  have hlength := congrArg List.length hexact
  exact absurd hlength (by decide)

end FileForge.Jobs.Watchers
