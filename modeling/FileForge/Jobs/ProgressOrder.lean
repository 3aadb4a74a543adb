import FileForge.Foundation.Execution
import FileForge.Jobs.Worker

/-!
# The progress that watchers see

The events that `src/jobs/worker.ts` publishes for one job, attempt after attempt, on any number of
workers. Three parts of the code publish them: the start of an attempt, the `progress` listener, and
the end. Only the listener holds its values to the high-water mark of its worker, which is forgotten
when the job completes. A processor may wait for the reply to an `updateProgress` or not, and the
replies arrive in any order, so a reply may outlive its attempt.

`InOrder` is the promise: progress never goes backwards, and nothing follows the terminal event.
`inOrder_iff_meets` says which steps break it: an attempt that starts when progress has been shown
already, and a late reply that the listener does not hold back.
-/

set_option autoImplicit false
set_option relaxedAutoImplicit false

namespace FileForge.Jobs.ProgressOrder

open Foundation.Execution Foundation.JsonValue Shared.Contract Errors Queue Worker

/-! ### The publishes of one job -/

/-- A progress that a processor reports. -/
structure Percent where
  value : ℚ
  inRange : 0 ≤ value ∧ value ≤ 100

/-- An `updateProgress` call without a reply yet: the worker that made it, and whether the processor
waits for it. -/
structure Update where
  worker : ℕ
  percent : Percent
  awaited : Bool

structure State where
  job : Job
  /-- The worker that runs an attempt. -/
  running : Option ℕ := none
  updates : List Update := []
  /-- `highWater.get(job.id)` of each worker. -/
  highWater : ℕ → Option ℚ := fun _ ↦ none
  /-- The worker that has completed the job and has not run its `completed` listener. -/
  completedBy : Option ℕ := none
  /-- The queue touches the job no more. -/
  settled : Bool := false
  published : List JobEvent := []

inductive Action
  /-- A worker takes up the job. -/
  | start (worker : ℕ)
  /-- The processor calls `updateProgress`. -/
  | update (percent : Percent) (awaited : Bool)
  /-- The reply to an update arrives: the worker emits `progress`. -/
  | reply (index : ℕ)
  /-- The processor returns. -/
  | complete (result : ProcessorResult)
  /-- The processor throws. -/
  | fail (error : JobError)
  /-- The worker emits `completed`. -/
  | forget

def State.publish (state : State) (event : JobEvent) : State :=
  { state with published := state.published ++ [event] }

/-- The processor waits for no reply. -/
def State.free (state : State) : Bool := state.updates.all fun update ↦ !update.awaited

/-- The `progress` listener: the value it lets through, if it does. -/
def onProgress (mark : Option ℚ) (progress : Json) : Option ℚ :=
  let value := progress.asNumber.getD 0
  if value < mark.getD 0 then none else some value

/-- The listener hears of an update. -/
def State.hear (state : State) (update : Update) : State :=
  match onProgress (state.highWater update.worker) (.number update.percent.value) with
  | none => state
  | some value =>
    State.publish { state with
      highWater := Function.update state.highWater update.worker (some value) }
      (progressEvent state.job value)

/-- The processor has thrown: a final failure is announced, and the attempt has ended. -/
def State.fail (state : State) (error : JobError) : State :=
  let ended := { state with
    running := none
    job := { state.job with attemptsMade := state.job.attemptsMade + 1 } }
  if announcesFailure state.job error then
    State.publish { ended with settled := true } (failedEvent state.job error.message)
  else ended

def step (state : State) : Action → Option State
  | .start worker =>
    if state.running = none ∧ state.settled = false then
      some (State.publish { state with running := some worker } (startedEvent state.job))
    else none
  | .update percent awaited =>
    match state.running with
    | some worker =>
      if state.free then
        some { state with updates := state.updates ++ [⟨worker, percent, awaited⟩] }
      else none
    | none => none
  | .reply index =>
    match state.updates[index]? with
    | some update => some (State.hear { state with updates := state.updates.eraseIdx index } update)
    | none => none
  | .complete result =>
    match state.running with
    | some worker =>
      if state.free then
        some (State.publish { state with
          running := none, settled := true, completedBy := some worker }
          (completedEvent state.job result))
      else none
    | none => none
  | .fail error =>
    if state.running.isSome ∧ state.free then some (state.fail error.marked) else none
  | .forget =>
    match state.completedBy with
    | some worker =>
      some { state with
        highWater := Function.update state.highWater worker none, completedBy := none }
    | none => none

/-- The workers, before any of them has taken up the job. -/
def workers (job : Job) : System State Action := ⟨{ job := job }, step⟩

/-! ### The promise -/

/-- The event shows progress. -/
def ShowsProgress (event : JobEvent) : Prop := event.state = .processing ∨ event.state = .completed

/-- Progress never goes backwards, and no event follows a terminal one. -/
def InOrder (published : List JobEvent) : Prop :=
  published.Pairwise (fun earlier later ↦
    ShowsProgress earlier → ShowsProgress later → earlier.progress ≤ later.progress) ∧
  published.Pairwise fun earlier _ ↦ ¬ earlier.state.Terminal

/-- No progress above a value has been shown. -/
def State.NoneAbove (state : State) (value : ℚ) : Prop :=
  ∀ event ∈ state.published, ShowsProgress event → event.progress ≤ value

/-- A step that keeps the promise: an attempt starts when no progress has been shown, and a reply is
held back by the mark of its worker, or comes before the terminal event and shows no less than
what has been shown. -/
def Timely (state : State) : Action → Prop
  | .start _ => state.NoneAbove 0
  | .reply index => ∀ update ∈ state.updates[index]?,
      update.percent.value < (state.highWater update.worker).getD 0 ∨
        (state.settled = false ∧ state.NoneAbove update.percent.value)
  | _ => True

/-- One more event. -/
theorem inOrder_concat_iff (published : List JobEvent) (event : JobEvent) :
    InOrder (published ++ [event]) ↔ InOrder published ∧
      (∀ earlier ∈ published, ¬ earlier.state.Terminal) ∧
        (ShowsProgress event → ∀ earlier ∈ published, ShowsProgress earlier →
          earlier.progress ≤ event.progress) := by
  simp only [InOrder, List.pairwise_append, List.pairwise_singleton, List.mem_singleton,
    forall_eq, true_and]
  constructor
  · rintro ⟨⟨hprogress, hlast⟩, hterminal, hnone⟩
    exact ⟨⟨hprogress, hterminal⟩, hnone, fun hshows earlier hearlier hshown ↦
      hlast earlier hearlier hshown hshows⟩
  · rintro ⟨⟨hprogress, hterminal⟩, hnone, hlast⟩
    exact ⟨⟨hprogress, fun earlier hearlier hshown hshows ↦ hlast hshows earlier hearlier hshown⟩,
      hterminal, hnone⟩

theorem inOrder_nil : InOrder [] := ⟨List.Pairwise.nil, List.Pairwise.nil⟩

/-! ### What holds in every state -/

structure Accounted (state : State) : Prop where
  inRange : ∀ event ∈ state.published, 0 ≤ event.progress ∧ event.progress ≤ 100
  /-- The job has settled when its terminal event is out. -/
  settled : state.settled = true ↔ ∃ event ∈ state.published, event.state.Terminal
  running : state.running.isSome = true → state.settled = false

theorem accounted_start (job : Job) : Accounted (workers job).start where
  inRange := fun _ hevent ↦ absurd hevent List.not_mem_nil
  settled := by
    refine iff_of_false Bool.false_ne_true ?_
    rintro ⟨event, hevent, -⟩
    exact absurd hevent List.not_mem_nil
  running := fun _ ↦ rfl

/-- No event is terminal while the job has not settled. -/
theorem Accounted.not_terminal {state : State} (h : Accounted state)
    (hsettled : state.settled = false) : ∀ event ∈ state.published, ¬ event.state.Terminal := by
  intro event hevent hterminal
  rw [h.settled.mpr ⟨event, hevent, hterminal⟩] at hsettled
  cases hsettled

theorem Accounted.settled_eq_false_iff {state : State} (h : Accounted state) :
    state.settled = false ↔ ∀ event ∈ state.published, ¬ event.state.Terminal := by
  constructor
  · exact h.not_terminal
  · intro hnone
    by_contra hsettled
    obtain ⟨event, hevent, hterminal⟩ := h.settled.mp (by simpa using hsettled)
    exact hnone event hevent hterminal

/-- A step that publishes nothing. -/
theorem Accounted.of_silent {state after : State} (h : Accounted state)
    (hpublished : after.published = state.published) (hsettled : after.settled = state.settled)
    (hrunning : after.running.isSome = true → state.settled = false) : Accounted after where
  inRange := hpublished ▸ h.inRange
  settled := by
    rw [hpublished, hsettled]
    exact h.settled
  running := fun hsome ↦ hsettled.trans (hrunning hsome)

/-- A step that publishes one event. Assumes: the job settles when the event is terminal. -/
theorem Accounted.of_published {state after : State} (h : Accounted state) (event : JobEvent)
    (hpublished : after.published = state.published ++ [event])
    (hrange : 0 ≤ event.progress ∧ event.progress ≤ 100)
    (hsettled : after.settled = true ↔ state.settled = true ∨ event.state.Terminal)
    (hrunning : after.running.isSome = true → after.settled = false) : Accounted after where
  inRange := by
    intro other hother
    rw [hpublished, List.mem_append, List.mem_singleton] at hother
    rcases hother with hold | rfl
    · exact h.inRange other hold
    · exact hrange
  settled := by
    rw [hsettled, h.settled, hpublished]
    constructor
    · rintro (⟨other, hother, hterminal⟩ | hterminal)
      · exact ⟨other, List.mem_append_left _ hother, hterminal⟩
      · exact ⟨event, List.mem_append_right _ (List.mem_singleton_self _), hterminal⟩
    · rintro ⟨other, hother, hterminal⟩
      rcases List.mem_append.mp hother with hold | hnew
      · exact Or.inl ⟨other, hold, hterminal⟩
      · exact Or.inr (List.mem_singleton.mp hnew ▸ hterminal)
  running := hrunning

/-! ### One step -/

theorem not_terminal_processing : ¬ EventState.processing.Terminal := by decide

theorem zero_inRange : (0 : ℚ) ≤ 0 ∧ (0 : ℚ) ≤ 100 := by decide

theorem hundred_inRange : (0 : ℚ) ≤ 100 ∧ (100 : ℚ) ≤ 100 := by decide

/-- The promise after a step that publishes nothing. -/
theorem inOrder_of_silent {state after : State} {action : Action}
    (hpublished : after.published = state.published) (htimely : Timely state action) :
    InOrder after.published ↔ InOrder state.published ∧ Timely state action := by
  rw [hpublished, and_iff_left htimely]

section Steps

variable {state after : State}

theorem start_spec (h : Accounted state) {worker : ℕ}
    (hstep : step state (.start worker) = some after) :
    Accounted after ∧
      (InOrder after.published ↔ InOrder state.published ∧ Timely state (.start worker)) := by
  simp only [step] at hstep
  split_ifs at hstep with hidle
  rw [← Option.some.inj hstep]
  constructor
  · refine h.of_published (startedEvent state.job) rfl zero_inRange ?_ fun _ ↦ hidle.2
    exact ⟨Or.inl, fun hor ↦ hor.resolve_right not_terminal_processing⟩
  · show InOrder (state.published ++ [startedEvent state.job]) ↔ _
    rw [inOrder_concat_iff, and_iff_right (h.not_terminal hidle.2)]
    exact and_congr_right fun _ ↦ ⟨fun hnone ↦ hnone (Or.inl rfl), fun hnone _ ↦ hnone⟩

theorem update_spec (h : Accounted state) {percent : Percent} {awaited : Bool}
    (hstep : step state (.update percent awaited) = some after) :
    Accounted after ∧ (InOrder after.published ↔
      InOrder state.published ∧ Timely state (.update percent awaited)) := by
  simp only [step] at hstep
  split at hstep
  · split_ifs at hstep
    rw [← Option.some.inj hstep]
    exact ⟨h.of_silent rfl rfl h.running, inOrder_of_silent rfl trivial⟩
  · cases hstep

/-- What the listener does with an update. -/
theorem hear_cases (state : State) (update : Update) :
    (update.percent.value < (state.highWater update.worker).getD 0 ∧ state.hear update = state) ∨
      (¬ update.percent.value < (state.highWater update.worker).getD 0 ∧
        state.hear update = State.publish { state with
          highWater := Function.update state.highWater update.worker (some update.percent.value) }
          (progressEvent state.job update.percent.value)) := by
  by_cases hbelow : update.percent.value < (state.highWater update.worker).getD 0
  · refine Or.inl ⟨hbelow, ?_⟩
    simp [State.hear, onProgress, Json.asNumber, hbelow]
  · refine Or.inr ⟨hbelow, ?_⟩
    simp [State.hear, onProgress, Json.asNumber, hbelow]

theorem reply_spec (h : Accounted state) {index : ℕ}
    (hstep : step state (.reply index) = some after) :
    Accounted after ∧
      (InOrder after.published ↔ InOrder state.published ∧ Timely state (.reply index)) := by
  simp only [step] at hstep
  split at hstep
  · rename_i update hupdate
    have htimely : Timely state (.reply index) ↔
        update.percent.value < (state.highWater update.worker).getD 0 ∨
          (state.settled = false ∧ state.NoneAbove update.percent.value) := by
      simp only [Timely, hupdate, Option.mem_def, Option.some.injEq, forall_eq']
    rw [← Option.some.inj hstep]
    rcases hear_cases { state with updates := state.updates.eraseIdx index } update with
      ⟨hbelow, hheard⟩ | ⟨hreaches, hheard⟩
    · rw [hheard]
      exact ⟨h.of_silent rfl rfl h.running, inOrder_of_silent rfl (htimely.mpr (Or.inl hbelow))⟩
    · rw [hheard]
      constructor
      · refine h.of_published (progressEvent state.job update.percent.value) rfl
          update.percent.inRange ?_ h.running
        exact ⟨Or.inl, fun hor ↦ hor.resolve_right not_terminal_processing⟩
      · show InOrder (state.published ++ [progressEvent state.job update.percent.value]) ↔ _
        rw [inOrder_concat_iff, htimely, or_iff_right hreaches, ← h.settled_eq_false_iff]
        refine and_congr_right fun _ ↦ and_congr_right fun _ ↦ ?_
        exact ⟨fun hnone ↦ hnone (Or.inl rfl), fun hnone _ ↦ hnone⟩
  · cases hstep

theorem complete_spec (h : Accounted state) {result : ProcessorResult}
    (hstep : step state (.complete result) = some after) :
    Accounted after ∧
      (InOrder after.published ↔ InOrder state.published ∧ Timely state (.complete result)) := by
  simp only [step] at hstep
  split at hstep
  · rename_i worker hworker
    split_ifs at hstep
    rw [← Option.some.inj hstep]
    have hrunning : state.settled = false := h.running (by rw [hworker]; rfl)
    constructor
    · refine h.of_published (completedEvent state.job result) rfl hundred_inRange ?_ ?_
      · exact iff_of_true rfl (Or.inr (Or.inl rfl))
      · intro hsome
        cases hsome
    · show InOrder (state.published ++ [completedEvent state.job result]) ↔ _
      rw [inOrder_concat_iff, and_iff_right (h.not_terminal hrunning)]
      exact and_congr_right fun _ ↦ iff_of_true
        (fun _ earlier hearlier _ ↦ (h.inRange earlier hearlier).2) trivial
  · cases hstep

theorem fail_spec (h : Accounted state) {error : JobError}
    (hstep : step state (.fail error) = some after) :
    Accounted after ∧
      (InOrder after.published ↔ InOrder state.published ∧ Timely state (.fail error)) := by
  simp only [step, State.fail] at hstep
  split_ifs at hstep with hruns hfinal
  · rw [← Option.some.inj hstep]
    constructor
    · refine h.of_published (failedEvent state.job error.marked.message) rfl zero_inRange ?_ ?_
      · exact iff_of_true rfl (Or.inr (Or.inr rfl))
      · intro hsome
        cases hsome
    · show InOrder (state.published ++ [failedEvent state.job error.marked.message]) ↔ _
      rw [inOrder_concat_iff, and_iff_right (h.not_terminal (h.running hruns.1))]
      refine and_congr_right fun _ ↦ iff_of_true ?_ trivial
      rintro (hprocessing | hcompleted)
      · cases hprocessing
      · cases hcompleted
  · rw [← Option.some.inj hstep]
    exact ⟨h.of_silent rfl rfl (fun hsome ↦ by cases hsome), inOrder_of_silent rfl trivial⟩

theorem forget_spec (h : Accounted state) (hstep : step state .forget = some after) :
    Accounted after ∧
      (InOrder after.published ↔ InOrder state.published ∧ Timely state .forget) := by
  simp only [step] at hstep
  split at hstep
  · rw [← Option.some.inj hstep]
    exact ⟨h.of_silent rfl rfl h.running, inOrder_of_silent rfl trivial⟩
  · cases hstep

/-- The step lemma: a step keeps the promise exactly when it is timely. -/
theorem step_spec (h : Accounted state) {action : Action}
    (hstep : step state action = some after) :
    Accounted after ∧
      (InOrder after.published ↔ InOrder state.published ∧ Timely state action) := by
  cases action with
  | start worker => exact start_spec h hstep
  | update percent awaited => exact update_spec h hstep
  | reply index => exact reply_spec h hstep
  | complete result => exact complete_spec h hstep
  | fail error => exact fail_spec h hstep
  | forget => exact forget_spec h hstep

end Steps

/-! ### Whole runs -/

/-- Progress never goes backwards and nothing follows the terminal event, over any attempts on any
workers and any order of the replies, exactly when every step is timely. -/
theorem inOrder_iff_meets (job : Job) (actions : List Action) (state : State)
    (hrun : (workers job).run actions = some state) :
    InOrder state.published ↔ (workers job).Meets Timely actions :=
  (System.iff_meets Accounted (fun state ↦ InOrder state.published) (accounted_start job)
    inOrder_nil (fun _ _ _ haccounted hstep ↦ step_spec haccounted hstep) hrun).2

/-- A job with three attempts. -/
def exampleJob : Job := { id := "1", operation := "csv.validate", attempts := some 3 }

def tenPercent : Percent := ⟨10, by decide⟩

/-- A job that completes in its first attempt. -/
theorem inOrder_firstAttempt :
    ∃ state, (workers exampleJob).run [.start 0, .update tenPercent true, .reply 0,
      .complete { outputs := [] }, .forget] = some state ∧ InOrder state.published := by
  have hstart : (workers exampleJob).Meets Timely ([] ++ [.start 0]) := by
    refine (System.meets_nil _ _).concat fun state hstate event hevent ↦ ?_
    obtain rfl := Option.some.inj hstate
    exact absurd hevent List.not_mem_nil
  have hupdate : (workers exampleJob).Meets Timely ([.start 0] ++ [.update tenPercent true]) :=
    hstart.concat fun _ _ ↦ trivial
  have hreply : (workers exampleJob).Meets Timely
      ([.start 0, .update tenPercent true] ++ [.reply 0]) := by
    refine hupdate.concat fun state hstate update hmem ↦ Or.inr ?_
    obtain rfl := Option.some.inj hstate
    obtain rfl := Option.some.inj hmem
    refine ⟨rfl, fun event hevent _ ↦ ?_⟩
    obtain rfl : event = startedEvent exampleJob := List.mem_singleton.mp hevent
    exact tenPercent.inRange.1
  have hcomplete : (workers exampleJob).Meets Timely
      ([.start 0, .update tenPercent true, .reply 0] ++ [.complete { outputs := [] }]) :=
    hreply.concat fun _ _ ↦ trivial
  have hforget : (workers exampleJob).Meets Timely ([.start 0, .update tenPercent true, .reply 0,
      .complete { outputs := [] }] ++ [.forget]) := hcomplete.concat fun _ _ ↦ trivial
  exact ⟨_, rfl, (inOrder_iff_meets exampleJob [.start 0, .update tenPercent true, .reply 0,
    .complete { outputs := [] }, .forget] _ rfl).mpr hforget⟩

/-- A second attempt shows its start after the progress of the first. -/
theorem not_inOrder_retried :
    ∃ state, (workers exampleJob).run [.start 0, .update tenPercent true, .reply 0,
      .fail (.error "disk hiccup"), .start 0] = some state ∧ ¬ InOrder state.published := by
  refine ⟨_, rfl, fun hinOrder ↦ ?_⟩
  have hlast := (List.pairwise_cons.mp (List.pairwise_cons.mp hinOrder.1).2).1
    (startedEvent exampleJob) (List.mem_singleton_self _) (Or.inl rfl) (Or.inl rfl)
  have hbackwards : (10 : ℚ) ≤ 0 := hlast
  exact absurd hbackwards (by decide)

end FileForge.Jobs.ProgressOrder
