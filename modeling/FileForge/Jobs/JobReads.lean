import FileForge.Jobs.Routes

/-!
# Reading a job that runs

What can happen to a job between the calls of a request that asks after it: a worker takes it up,
reports progress, completes it, fails it or leaves it for a retry, a delay runs out, or the queue
removes it (`Happening`). A progress update may arrive in any state, because a processor need not
wait for it. `instants` are the states of the job one after the other.

Both readers combine the fields of one instant with the state of a later one.
`statusConsistent_iff` and `eventConsistent_iff` are when the answer still belongs to a single
instant. Nothing goes wrong as long as the job is found in the phase in which it was loaded
(`phase`). If it is found settled, it had to be settled already. If the attempt moved on between the
reads, it must have done so before its progress changed (`StatusTimely.onward`); and if another
attempt has followed, the one that was loaded must have had its progress from the start
(`StatusTimely.again`). `Follows` is the order of the instants that this rests on: an attempt goes
through its phases in turn and ends once, and nothing touches a settled job but late progress.
-/

set_option autoImplicit false
set_option relaxedAutoImplicit false

namespace FileForge.Jobs.JobReads

open Foundation.Interaction Foundation.JsonValue Shared.Contract EventStream Queue Routes

/-! ### The life of a job -/

inductive Happening
  /-- A worker takes up the job. -/
  | start
  /-- An update of the progress arrives. -/
  | progress (value : Json)
  | complete (result : JobResult)
  /-- The last attempt fails, or one that no retry can fix. -/
  | fail (reason : String)
  /-- An attempt fails and another one is due after a delay. -/
  | retry (reason : String)
  /-- The delay has run out. -/
  | promote
  | remove

/-- One more attempt has ended. -/
def endAttempt (record : Record) : Record :=
  { record with job := { record.job with attemptsMade := record.job.attemptsMade + 1 } }

/-- The job afterwards, `none` when it has been removed. What does not apply to the state of the
job changes nothing. -/
def happen (record : Record) : Happening → Option Record
  | .start => some (if record.state = .waiting then { record with state := .active } else record)
  | .progress value => some { record with job := { record.job with progress := value } }
  | .complete result =>
    some (if record.state = .active then
      (endAttempt record).settle (.completed result.toJson) else record)
  | .fail reason =>
    some (if record.state = .active then (endAttempt record).settle (.failed reason) else record)
  | .retry reason =>
    some (if record.state = .active then
      { job := { (endAttempt record).job with failedReason := some reason }, state := .delayed }
      else record)
  | .promote => some (if record.state = .delayed then { record with state := .waiting } else record)
  | .remove => none

/-- The job after some happenings. -/
def after (record : Option Record) (happenings : List Happening) : Option Record :=
  happenings.foldl (fun current happening ↦ current.bind (happen · happening)) record

/-- The states of the job from the first one on, as long as it is there. -/
def instants (record : Record) : List Happening → List Record
  | [] => [record]
  | happening :: rest => record :: ((happen record happening).elim [] fun next ↦ instants next rest)

/-- A job as it is added to the queue. -/
def queued (id : String) (operation : Operation) (attempts : Option ℕ) : Record where
  job := { id := id, operation := operation.text, attempts := attempts }
  state := .waiting

/-- What `getState` answers. -/
def stateOf (record : Option Record) : QueueState := record.elim .unknown Record.state

/-- The queue between the calls of a request: before it answers one, what is scheduled for that call
happens. -/
def world (fileId : String) (schedule : ℕ → List Happening) :
    Program.World Call Reply Unit (Option Record) := fun calls request record ↦
  let current := after record (schedule calls)
  match request with
  | .getJob => (.ok (current.map fun found ↦ ⟨found.job, fileId⟩), current)
  | .subscribe => (.ok (), current)
  | .getState => (.ok (stateOf current), current)

/-! ### The order of the instants -/

/-- How far an attempt is: it is delayed, waits, runs and settles. -/
def phase : QueueState → ℕ
  | .waiting | .waitingChildren | .prioritized => 1
  | .active => 2
  | .completed | .failed => 3
  | .delayed | .unknown => 0

/-- No phase comes after the settled states. -/
theorem not_settled_of_phase_lt {state other : QueueState} (h : phase state < phase other) :
    ¬ Settled state := by
  have hlast : phase other ≤ 3 := by cases other <;> decide
  rintro (rfl | rfl)
  · exact absurd h (Nat.not_lt.mpr hlast)
  · exact absurd h (Nat.not_lt.mpr hlast)

/-- What may have changed from one instant to a later one. -/
structure Follows (earlier later : Record) : Prop where
  id : later.job.id = earlier.job.id
  operation : later.job.operation = earlier.job.operation
  attempts : earlier.job.attemptsMade ≤ later.job.attemptsMade
  /-- An attempt does not go back. -/
  phases : later.job.attemptsMade = earlier.job.attemptsMade →
    phase earlier.state ≤ phase later.state
  /-- A job settles at the end of an attempt. -/
  settles : ¬ Settled earlier.state → Settled later.state →
    earlier.job.attemptsMade < later.job.attemptsMade
  settled : Settled earlier.state → later.state = earlier.state ∧
    later.job.returnvalue = earlier.job.returnvalue ∧
    later.job.failedReason = earlier.job.failedReason

theorem Follows.refl (record : Record) : Follows record record :=
  ⟨rfl, rfl, le_rfl, fun _ ↦ le_rfl, fun hnot hsettled ↦ absurd hsettled hnot,
    fun _ ↦ ⟨rfl, rfl, rfl⟩⟩

theorem Follows.trans {first second third : Record} (h : Follows first second)
    (hnext : Follows second third) : Follows first third where
  id := hnext.id.trans h.id
  operation := hnext.operation.trans h.operation
  attempts := h.attempts.trans hnext.attempts
  phases := fun hsame ↦ by
    have hmiddle : second.job.attemptsMade = first.job.attemptsMade :=
      le_antisymm (hsame ▸ hnext.attempts) h.attempts
    exact (h.phases hmiddle).trans (hnext.phases (hsame.trans hmiddle.symm))
  settles := fun hnot hsettled ↦ by
    by_cases hmiddle : Settled second.state
    · exact (h.settles hnot hmiddle).trans_le hnext.attempts
    · exact h.attempts.trans_lt (hnext.settles hmiddle hsettled)
  settled := fun hsettled ↦ by
    obtain ⟨hstate, hvalue, hreason⟩ := h.settled hsettled
    obtain ⟨hstate', hvalue', hreason'⟩ := hnext.settled (hstate ▸ hsettled)
    exact ⟨hstate'.trans hstate, hvalue'.trans hvalue, hreason'.trans hreason⟩

/-- The job waits, runs or is delayed. -/
def Unsettled (state : QueueState) : Prop :=
  state = .waiting ∨ state = .active ∨ state = .delayed

theorem Unsettled.not_settled {state : QueueState} (h : Unsettled state) : ¬ Settled state := by
  rcases h with rfl | rfl | rfl <;> decide

theorem Unsettled.ne_unknown {state : QueueState} (h : Unsettled state) : state ≠ .unknown := by
  rcases h with rfl | rfl | rfl <;> decide

theorem Unsettled.ne_completed {state : QueueState} (h : Unsettled state) :
    state ≠ .completed := fun hcompleted ↦ h.not_settled (Or.inl hcompleted)

/-- A job that has not settled changes its state only, to that of a later phase. -/
theorem Follows.of_unsettled {record : Record} {state : QueueState} (h : Unsettled record.state)
    (hstate : Unsettled state) (hphase : phase record.state ≤ phase state) :
    Follows record { record with state := state } :=
  ⟨rfl, rfl, le_rfl, fun _ ↦ hphase, fun _ hsettled ↦ absurd hsettled hstate.not_settled,
    fun hsettled ↦ absurd hsettled h.not_settled⟩

/-- An attempt ends. -/
theorem Follows.of_ended {record next : Record} (h : record.state = .active)
    (hid : next.job.id = record.job.id) (hoperation : next.job.operation = record.job.operation)
    (hattempts : next.job.attemptsMade = record.job.attemptsMade + 1) : Follows record next where
  id := hid
  operation := hoperation
  attempts := hattempts ▸ Nat.le_succ _
  phases := fun hsame ↦ absurd (hattempts.symm.trans hsame) (Nat.succ_ne_self _)
  settles := fun _ _ ↦ hattempts ▸ Nat.lt_succ_self _
  settled := fun hsettled ↦ absurd hsettled (Unsettled.not_settled (Or.inr (Or.inl h)))

/-- An attempt ends if one runs. -/
theorem Follows.of_attempt {record next : Record} (hid : next.job.id = record.job.id)
    (hoperation : next.job.operation = record.job.operation)
    (hattempts : next.job.attemptsMade = record.job.attemptsMade + 1) :
    Follows record (if record.state = .active then next else record) := by
  split_ifs with hstate
  · exact Follows.of_ended hstate hid hoperation hattempts
  · exact Follows.refl record

/-- The step lemma of the order. -/
theorem follows_happen {record next : Record} {happening : Happening}
    (h : happen record happening = some next) : Follows record next := by
  cases happening with
  | start =>
    obtain rfl := Option.some.inj h
    split_ifs with hstate
    · exact Follows.of_unsettled (Or.inl hstate) (Or.inr (Or.inl rfl)) (hstate ▸ by decide)
    · exact Follows.refl record
  | progress value =>
    obtain rfl := Option.some.inj h
    exact ⟨rfl, rfl, le_rfl, fun _ ↦ le_rfl, fun hnot hsettled ↦ absurd hsettled hnot,
      fun _ ↦ ⟨rfl, rfl, rfl⟩⟩
  | complete result =>
    obtain rfl := Option.some.inj h
    exact Follows.of_attempt rfl rfl rfl
  | fail reason =>
    obtain rfl := Option.some.inj h
    exact Follows.of_attempt rfl rfl rfl
  | retry reason =>
    obtain rfl := Option.some.inj h
    exact Follows.of_attempt rfl rfl rfl
  | promote =>
    obtain rfl := Option.some.inj h
    split_ifs with hstate
    · exact Follows.of_unsettled (Or.inr (Or.inr hstate)) (Or.inl rfl) (hstate ▸ by decide)
    · exact Follows.refl record
  | remove => cases h

/-- Every instant follows the first. -/
theorem follows_of_mem {record later : Record} {happenings : List Happening}
    (h : later ∈ instants record happenings) : Follows record later := by
  induction happenings generalizing record with
  | nil => exact List.mem_singleton.mp h ▸ Follows.refl record
  | cons happening rest ih =>
    rcases List.mem_cons.mp h with rfl | hrest
    · exact Follows.refl later
    · cases hnext : happen record happening with
      | none =>
        rw [hnext] at hrest
        exact absurd hrest List.not_mem_nil
      | some next =>
        rw [hnext] at hrest
        exact (follows_happen hnext).trans (ih hrest)

/-- Of two instants, one follows the other. -/
theorem follows_or_follows {record first second : Record} {happenings : List Happening}
    (hfirst : first ∈ instants record happenings) (hsecond : second ∈ instants record happenings) :
    Follows first second ∨ Follows second first := by
  induction happenings generalizing record with
  | nil =>
    obtain rfl := List.mem_singleton.mp hfirst
    obtain rfl := List.mem_singleton.mp hsecond
    exact Or.inl (Follows.refl _)
  | cons happening rest ih =>
    rcases List.mem_cons.mp hfirst with rfl | hfirstRest
    · exact Or.inl (follows_of_mem hsecond)
    · rcases List.mem_cons.mp hsecond with rfl | hsecondRest
      · exact Or.inr (follows_of_mem hfirst)
      · cases hnext : happen record happening with
        | none =>
          rw [hnext] at hfirstRest
          exact absurd hfirstRest List.not_mem_nil
        | some next =>
          rw [hnext] at hfirstRest hsecondRest
          exact ih hfirstRest hsecondRest

/-! ### What holds at every instant -/

/-- A job has a result when it has completed, and a reason when it has failed. -/
structure Kept (record : Record) : Prop where
  state : record.state ≠ .unknown
  operation : OperationSchema.accepts record.job.operation = true
  completed : record.state = .completed →
    ∃ result : JobResult, record.job.returnvalue = result.toJson
  unfinished : record.state ≠ .completed → record.job.returnvalue = .null
  failed : record.state = .failed → ∃ reason, record.job.failedReason = some reason

theorem kept_queued (id : String) (operation : Operation) (attempts : Option ℕ) :
    Kept (queued id operation attempts) where
  state := Unsettled.ne_unknown (Or.inl rfl)
  operation := OperationSchema.accepts_text operation
  completed := fun h ↦ by cases h
  unfinished := fun _ ↦ rfl
  failed := fun h ↦ by cases h

/-- A job that has settled neither before nor after. -/
theorem Kept.of_unsettled {record next : Record} (h : Kept record)
    (hbefore : Unsettled record.state) (hstate : Unsettled next.state)
    (hoperation : next.job.operation = record.job.operation)
    (hvalue : next.job.returnvalue = record.job.returnvalue) : Kept next where
  state := hstate.ne_unknown
  operation := hoperation ▸ h.operation
  completed := fun hcompleted ↦ absurd (Or.inl hcompleted) hstate.not_settled
  unfinished := fun _ ↦ hvalue.trans (h.unfinished hbefore.ne_completed)
  failed := fun hfailed ↦ absurd (Or.inr hfailed) hstate.not_settled

/-- The step lemma of the fields. -/
theorem Kept.happen {record next : Record} {happening : Happening} (h : Kept record)
    (hnext : JobReads.happen record happening = some next) : Kept next := by
  cases happening with
  | start =>
    obtain rfl := Option.some.inj hnext
    split_ifs with hstate
    · exact h.of_unsettled (Or.inl hstate) (Or.inr (Or.inl rfl)) rfl rfl
    · exact h
  | progress value =>
    obtain rfl := Option.some.inj hnext
    exact ⟨h.state, h.operation, h.completed, h.unfinished, h.failed⟩
  | complete result =>
    obtain rfl := Option.some.inj hnext
    split_ifs with hstate
    · exact ⟨(fun hunknown ↦ by cases hunknown), h.operation, fun _ ↦ ⟨result, rfl⟩,
        fun hnot ↦ absurd rfl hnot, fun hfailed ↦ by cases hfailed⟩
    · exact h
  | fail reason =>
    obtain rfl := Option.some.inj hnext
    split_ifs with hstate
    · have hrunning : Unsettled record.state := Or.inr (Or.inl hstate)
      exact ⟨(fun hunknown ↦ by cases hunknown), h.operation,
        (fun hcompleted ↦ by cases hcompleted), fun _ ↦ h.unfinished hrunning.ne_completed,
        fun _ ↦ ⟨reason, rfl⟩⟩
    · exact h
  | retry reason =>
    obtain rfl := Option.some.inj hnext
    split_ifs with hstate
    · exact h.of_unsettled (Or.inr (Or.inl hstate)) (Or.inr (Or.inr rfl)) rfl rfl
    · exact h
  | promote =>
    obtain rfl := Option.some.inj hnext
    split_ifs with hstate
    · exact h.of_unsettled (Or.inr (Or.inr hstate)) (Or.inl rfl) rfl rfl
    · exact h
  | remove => cases hnext

theorem kept_of_mem {record later : Record} {happenings : List Happening} (h : Kept record)
    (hlater : later ∈ instants record happenings) : Kept later := by
  induction happenings generalizing record with
  | nil => exact List.mem_singleton.mp hlater ▸ h
  | cons happening rest ih =>
    rcases List.mem_cons.mp hlater with rfl | hrest
    · exact h
    · cases hnext : JobReads.happen record happening with
      | none =>
        rw [hnext] at hrest
        exact absurd hrest List.not_mem_nil
      | some next =>
        rw [hnext] at hrest
        exact ih (h.happen hnext) hrest

/-! ### What the two readers see -/

theorem after_none (happenings : List Happening) : after none happenings = none := by
  induction happenings with
  | nil => rfl
  | cons happening rest ih => exact ih

/-- The job as it stands is one of the instants. -/
theorem mem_instants_of_after {record later : Record} {happenings : List Happening}
    (h : after (some record) happenings = some later) (more : List Happening) :
    later ∈ instants record (happenings ++ more) := by
  induction happenings generalizing record with
  | nil =>
    obtain rfl := Option.some.inj h
    cases more with
    | nil => exact List.mem_singleton_self _
    | cons happening rest => exact List.mem_cons_self
  | cons happening rest ih =>
    change after (happen record happening) rest = some later at h
    cases hnext : happen record happening with
    | none =>
      rw [hnext, after_none] at h
      cases h
    | some next =>
      rw [hnext] at h
      refine List.mem_cons_of_mem record ?_
      rw [hnext]
      exact ih h

theorem after_append (record : Option Record) (first second : List Happening) :
    after record (first ++ second) = after (after record first) second :=
  List.foldl_append

/-- The instants up to the moment at which the job is loaded, and those from then on. -/
theorem mem_instants_append {record loaded instant : Record} {before between : List Happening}
    (hloaded : after (some record) before = some loaded) :
    instant ∈ instants record (before ++ between) ↔
      instant ∈ instants record before ∨ instant ∈ instants loaded between := by
  induction before generalizing record with
  | nil =>
    obtain rfl := Option.some.inj hloaded
    have hhead : record ∈ instants record between :=
      @mem_instants_of_after record record [] rfl between
    constructor
    · exact Or.inr
    · rintro (hfirst | hlater)
      · exact List.mem_singleton.mp hfirst ▸ hhead
      · exact hlater
  | cons happening rest ih =>
    change after (happen record happening) rest = some loaded at hloaded
    cases hnext : happen record happening with
    | none =>
      rw [hnext, after_none] at hloaded
      cases hloaded
    | some next =>
      rw [hnext] at hloaded
      simp only [List.cons_append, instants, hnext, Option.elim_some, List.mem_cons, ih hloaded,
        or_assoc]

/-- The job as it was loaded follows all instants up to then. -/
theorem follows_of_after {record loaded instant : Record} {before : List Happening}
    (hloaded : after (some record) before = some loaded) (h : instant ∈ instants record before) :
    Follows instant loaded := by
  induction before generalizing record with
  | nil =>
    obtain rfl := Option.some.inj hloaded
    exact List.mem_singleton.mp h ▸ Follows.refl _
  | cons happening rest ih =>
    have hall := mem_instants_of_after hloaded []
    rw [List.append_nil] at hall
    change after (happen record happening) rest = some loaded at hloaded
    rcases List.mem_cons.mp h with rfl | hrest
    · exact follows_of_mem hall
    · cases hnext : happen record happening with
      | none =>
        rw [hnext] at hrest
        exact absurd hrest List.not_mem_nil
      | some next =>
        rw [hnext] at hrest hloaded
        exact ih hloaded hrest

/-- `GET /jobs/:id` answers with the fields that were loaded and the state found later. -/
theorem run_getJobStatus (fileId : String) (schedule : ℕ → List Happening)
    (record : Option Record) :
    (Program.run (world fileId schedule) getJobStatus 0 record).outcome =
      .ok ((after record (schedule 0)).map fun loaded ↦
        statusOf ⟨loaded.job, fileId⟩ (stateOf (after (some loaded) (schedule 1)))) := by
  show (Program.run (world fileId schedule) (Program.perform Call.getJob >>= _) 0
    record).outcome = _
  rw [Program.run_bind, Program.run_perform]
  cases hloaded : after record (schedule 0) with
  | none => simp [world, hloaded]
  | some loaded => simp [world, hloaded, getState, Program.run_bind]

/-- The stream writes a snapshot of the fields that were loaded and the state found later. -/
theorem run_openStream (jobId fileId : String) (schedule : ℕ → List Happening)
    (record : Option Record) :
    (Program.run (world fileId schedule) (openStream jobId) 0 record).outcome =
      .ok (match after record (schedule 0) with
        | none => (Stream.onJob { jobId := jobId } none).1
        | some loaded =>
          (((Stream.onJob { jobId := jobId } (some loaded.job)).1.onSubscribed.onState
            (stateOf (after (some loaded) (schedule 1 ++ schedule 2)))).writeSnapshot).1) := by
  show (Program.run (world fileId schedule) (Program.perform Call.getJob >>= _) 0
    record).outcome = _
  rw [Program.run_bind, Program.run_perform]
  cases hloaded : after record (schedule 0) with
  | none => simp [world, hloaded]
  | some loaded => simp [world, hloaded, getState, subscribe, Program.run_bind, after_append]

/-! ### Answers of one instant -/

/-- What a `200` of `GET /jobs/:id` owes: it is the answer of a single instant, a completed job
comes with its result and a failed one with its reason, and the schema of the client takes it. -/
structure StatusConsistent (fileId : String) (lifetime : List Record) (found : Option Record)
    (status : JobStatus) : Prop where
  oneInstant : ∃ record ∈ lifetime, status = statusOf ⟨record.job, fileId⟩ record.state
  result : status.state = "completed" → ∃ result : JobResult,
    status.result = some result.toJson ∧ ∀ record ∈ found, record.job.returnvalue = result.toJson
  reason : status.state = "failed" → ∃ reason,
    status.error = some reason ∧ ∀ record ∈ found, record.job.failedReason = some reason
  accepted : JobStatusSchema.accepts status.toJson = true

/-- What the opening snapshot of a stream owes. -/
structure EventConsistent (lifetime : List Record) (found : Option Record) (event : JobEvent) :
    Prop where
  oneInstant : ∃ record ∈ lifetime, event = snapshot record.job record.state
  result : event.state = .completed → ∃ result : JobResult,
    event.result = some result.toJson ∧ ∀ record ∈ found, record.job.returnvalue = result.toJson
  reason : event.state = .failed → ∃ reason,
    event.error = some reason ∧ ∀ record ∈ found, record.job.failedReason = some reason

/-- The progress that the answers have. -/
def progressOf (record : Record) : ℚ := record.job.progress.asNumber.getD 0

/-- At one of the instants the job is in such a state and has this progress. -/
def Shows (lifetime : List Record) (shown : QueueState → Prop) (progress : ℚ) : Prop :=
  ∃ instant ∈ lifetime, shown instant.state ∧ progressOf instant = progress

/-- The instants of the attempt that was loaded. -/
def ofAttempt (loaded : Record) (lifetime : List Record) : List Record :=
  lifetime.filter fun instant ↦ instant.job.attemptsMade = loaded.job.attemptsMade

/-- Two states with one name for the client. -/
def SameName (state other : QueueState) : Prop :=
  publicState (stateText other) = publicState (stateText state)

/-- The job was loaded in time for its status: it is there when its state is asked for, and it had
settled if it is found settled. -/
structure StatusTimely (first : Record) (before between : List Happening) (loaded : Record) :
    Prop where
  there : (after (some loaded) between).isSome = true
  settled : ∀ found ∈ after (some loaded) between, Settled found.state →
    loaded.state = found.state
  /-- It is found in a later phase: the attempt has come to that phase between the reads, with the
  progress that was loaded. -/
  onward : ∀ found ∈ after (some loaded) between, ¬ Settled found.state →
    phase loaded.state < phase found.state →
      Shows (ofAttempt loaded (instants loaded between)) (SameName found.state) (progressOf loaded)
  /-- It is found in an earlier phase, of another attempt: the attempt that was loaded had been in
  that phase before, with the progress that was loaded. -/
  again : ∀ found ∈ after (some loaded) between, phase found.state < phase loaded.state →
    Shows (ofAttempt loaded (instants first before)) (SameName found.state) (progressOf loaded)

/-- The job was loaded in time for a snapshot: it had completed if it is found completed, and it had
its final reason if it is found failed. -/
structure EventTimely (first : Record) (before between : List Happening) (loaded : Record) :
    Prop where
  completed : stateOf (after (some loaded) between) = .completed → loaded.state = .completed
  failed : ∀ found ∈ after (some loaded) between, found.state = .failed →
    loaded.job.failedReason = found.job.failedReason
  /-- A worker has taken it up between the reads: it has run with the progress that was loaded. -/
  started : stateOf (after (some loaded) between) = .active → loaded.state ≠ .active →
    Shows (instants first (before ++ between)) (· = .active) (progressOf loaded)
  /-- The attempt has ended between the reads, or a settled job has been removed: it has waited with
  the progress that was loaded. -/
  ended : ¬ Settled (stateOf (after (some loaded) between)) →
    stateOf (after (some loaded) between) ≠ .active →
    (loaded.state = .active ∨ Settled loaded.state) →
      Shows (instants first (before ++ between)) (fun state ↦ ¬ Settled state ∧ state ≠ .active)
        (progressOf loaded)

/-- Two settled instants have one outcome. -/
theorem outcome_eq_of_settled {record first second : Record} {happenings : List Happening}
    (hfirst : first ∈ instants record happenings) (hsecond : second ∈ instants record happenings)
    (hfirstSettled : Settled first.state) (hsecondSettled : Settled second.state) :
    second.job.returnvalue = first.job.returnvalue ∧
      second.job.failedReason = first.job.failedReason := by
  rcases follows_or_follows hfirst hsecond with hfollows | hfollows
  · exact (hfollows.settled hfirstSettled).2
  · obtain ⟨-, hvalue, hreason⟩ := hfollows.settled hsecondSettled
    exact ⟨hvalue.symm, hreason.symm⟩

/-- The schema of the client takes the status of any instant. -/
theorem Kept.accepts_statusOf {record : Record} (h : Kept record) (fileId : String) :
    JobStatusSchema.accepts (statusOf ⟨record.job, fileId⟩ record.state).toJson = true := by
  have hresult : nullish JobResultSchema.accepts
      (statusOf ⟨record.job, fileId⟩ record.state).result = true := by
    by_cases hcompleted : record.state = .completed
    · obtain ⟨result, hvalue⟩ := h.completed hcompleted
      simp only [statusOf, if_pos hcompleted, hvalue, nullish, Option.all_some,
        JobResultSchema.accepts_toJson, Bool.or_true]
    · simp only [statusOf, if_neg hcompleted, nullish, Option.all_none]
  rw [JobStatusSchema.accepts_toJson, hresult, Bool.and_true, Bool.and_eq_true]
  exact ⟨accepts_publicState h.state, h.operation⟩

section Reads

variable {id : String} {operation : Operation} {attempts : Option ℕ} {fileId : String}
  {before between : List Happening} {loaded : Record}

/-- The job as its state is asked for is one of the instants, and follows the job as it was
loaded. -/
theorem mem_of_found {first : Record} (hloaded : after (some first) before = some loaded)
    {record : Record} (hfound : record ∈ after (some loaded) between) :
    record ∈ instants first (before ++ between) ∧ Follows loaded record := by
  have hall : after (some first) (before ++ between) = some record := by
    rw [after_append, hloaded]
    exact hfound
  have hmem := mem_instants_of_after hall []
  have hlater := mem_instants_of_after (Option.mem_def.mp hfound) []
  rw [List.append_nil] at hmem hlater
  exact ⟨hmem, follows_of_mem hlater⟩

/-- An answer of a single instant has all that a status owes. -/
theorem StatusConsistent.of_oneInstant {first : Record} (hkept : Kept first)
    (hloaded : after (some first) before = some loaded) {record : Record}
    (hrecord : record ∈ instants first (before ++ between))
    (hsame : statusOf ⟨loaded.job, fileId⟩ (stateOf (after (some loaded) between)) =
      statusOf ⟨record.job, fileId⟩ record.state) :
    StatusConsistent fileId (instants first (before ++ between)) (after (some loaded) between)
      (statusOf ⟨loaded.job, fileId⟩ (stateOf (after (some loaded) between))) := by
  have hrecordKept := kept_of_mem hkept hrecord
  -- A settled answer is that of the state found, and of the instant.
  have hstates : ∀ state, Settled state →
      (statusOf ⟨loaded.job, fileId⟩ (stateOf (after (some loaded) between))).state =
        publicState (stateText state) →
      record.state = state ∧ ∀ found ∈ after (some loaded) between, found.state = state := by
    intro state hsettled hpublic
    refine ⟨eq_of_publicState_eq hsettled ((congrArg JobStatus.state hsame).symm.trans hpublic),
      fun found hfound ↦ ?_⟩
    rw [Option.mem_def.mp hfound] at hpublic
    exact eq_of_publicState_eq hsettled hpublic
  refine ⟨⟨record, hrecord, hsame⟩, ?_, ?_, hsame ▸ hrecordKept.accepts_statusOf fileId⟩
  · intro hstate
    obtain ⟨hcompleted, hfoundState⟩ := hstates .completed (Or.inl rfl) hstate
    obtain ⟨result, hvalue⟩ := hrecordKept.completed hcompleted
    refine ⟨result, ?_, fun found hfound ↦ ?_⟩
    · rw [hsame]
      show (if record.state = .completed then some record.job.returnvalue else none) = _
      rw [if_pos hcompleted, hvalue]
    · rw [← hvalue]
      exact (outcome_eq_of_settled hrecord (mem_of_found hloaded hfound).1 (Or.inl hcompleted)
        (Or.inl (hfoundState found hfound))).1
  · intro hstate
    obtain ⟨hfailed, hfoundState⟩ := hstates .failed (Or.inr rfl) hstate
    obtain ⟨reason, hvalue⟩ := hrecordKept.failed hfailed
    refine ⟨reason, ?_, fun found hfound ↦ ?_⟩
    · rw [hsame]
      show (if record.state = .failed then record.job.failedReason else none) = _
      rw [if_pos hfailed, hvalue]
    · rw [← hvalue]
      exact (outcome_eq_of_settled hrecord (mem_of_found hloaded hfound).1 (Or.inr hfailed)
        (Or.inr (hfoundState found hfound))).2

/-- A job that was loaded before it settled is never answered as settled at one instant. Assumes: an
instant with the attempts that were loaded. -/
theorem loaded_settled {first record : Record}
    (hloaded : loaded ∈ instants first (before ++ between))
    (hrecord : record ∈ instants first (before ++ between)) (hsettled : Settled record.state)
    (hattempts : record.job.attemptsMade = loaded.job.attemptsMade) : Settled loaded.state := by
  rcases follows_or_follows hloaded hrecord with hfollows | hfollows
  · by_contra hnot
    exact absurd (hfollows.settles hnot hsettled) (hattempts ▸ Nat.lt_irrefl _)
  · rw [(hfollows.settled hsettled).1]
    exact hsettled

/-- Where a state has not settled, a state of the same phase has the same name, and no other. -/
theorem sameName_iff {state other : QueueState} (hstate : ¬ Settled state)
    (hknown : state ≠ .unknown) (hother : other ≠ .unknown) :
    SameName state other ↔ phase other = phase state := by
  rw [SameName]
  cases state <;> cases other <;> first
    | decide
    | exact absurd rfl hknown
    | exact absurd rfl hother
    | exact absurd (Or.inl rfl) hstate
    | exact absurd (Or.inr rfl) hstate

/-- The attempt that was loaded has an instant with its progress, in the state that the job is found
in: it is the loaded one, or lies between the reads or in front of both, as the phases say. -/
theorem exists_instant_iff {first : Record} (hkept : Kept first)
    (hloaded : after (some first) before = some loaded) {found : Record}
    (hfound : found ∈ after (some loaded) between) (hnot : ¬ Settled found.state) :
    (∃ instant ∈ instants first (before ++ between), SameName found.state instant.state ∧
        instant.job.attemptsMade = loaded.job.attemptsMade ∧
        progressOf instant = progressOf loaded) ↔
      (phase loaded.state < phase found.state →
        Shows (ofAttempt loaded (instants loaded between)) (SameName found.state)
          (progressOf loaded)) ∧
      (phase found.state < phase loaded.state →
        Shows (ofAttempt loaded (instants first before)) (SameName found.state)
          (progressOf loaded)) := by
  have hknown := (kept_of_mem hkept (mem_of_found hloaded hfound).1).state
  constructor
  · rintro ⟨instant, hinstant, hname, hattempts, hprogress⟩
    have hphase := (sameName_iff hnot hknown (kept_of_mem hkept hinstant).state).mp hname
    have hshown : ∀ lifetime, instant ∈ lifetime →
        Shows (ofAttempt loaded lifetime) (SameName found.state) (progressOf loaded) :=
      fun lifetime hmem ↦
        ⟨instant, List.mem_filter.mpr ⟨hmem, decide_eq_true hattempts⟩, hname, hprogress⟩
    -- Within the attempt, what comes before the loaded instant is in no later phase.
    rcases (mem_instants_append hloaded).mp hinstant with hbefore | hafter
    · have hle := (follows_of_after hloaded hbefore).phases hattempts.symm
      exact ⟨fun hlater ↦ absurd (hphase ▸ hle) (Nat.not_le.mpr hlater),
        fun _ ↦ hshown _ hbefore⟩
    · have hle := (follows_of_mem hafter).phases hattempts
      exact ⟨fun _ ↦ hshown _ hafter,
        fun hearlier ↦ absurd (hphase ▸ hle) (Nat.not_le.mpr hearlier)⟩
  · rintro ⟨honward, hagain⟩
    have hshown : ∀ lifetime, (∀ instant ∈ lifetime, instant ∈ instants first (before ++ between)) →
        Shows (ofAttempt loaded lifetime) (SameName found.state) (progressOf loaded) →
        ∃ instant ∈ instants first (before ++ between), SameName found.state instant.state ∧
          instant.job.attemptsMade = loaded.job.attemptsMade ∧
          progressOf instant = progressOf loaded := by
      rintro lifetime hall ⟨instant, hmem, hname, hprogress⟩
      obtain ⟨hmem, hattempts⟩ := List.mem_filter.mp hmem
      exact ⟨instant, hall instant hmem, hname, of_decide_eq_true hattempts, hprogress⟩
    rcases lt_trichotomy (phase loaded.state) (phase found.state) with hlater | hsame | hearlier
    · exact hshown _ (fun instant h ↦ (mem_instants_append hloaded).mpr (Or.inr h)) (honward hlater)
    · have hmem := mem_instants_of_after hloaded between
      exact ⟨loaded, hmem, (sameName_iff hnot hknown (kept_of_mem hkept hmem).state).mpr hsame, rfl,
        rfl⟩
    · exact hshown _ (fun instant h ↦ (mem_instants_append hloaded).mpr (Or.inl h))
        (hagain hearlier)

/-- The status of a job is that of a single instant exactly when the job was loaded in time. -/
theorem statusConsistent_iff {first : Record} (hkept : Kept first)
    (hloaded : after (some first) before = some loaded) :
    StatusConsistent fileId (instants first (before ++ between)) (after (some loaded) between)
        (statusOf ⟨loaded.job, fileId⟩ (stateOf (after (some loaded) between))) ↔
      StatusTimely first before between loaded := by
  have hmem := mem_instants_of_after hloaded between
  constructor
  · rintro ⟨⟨record, hrecord, hsame⟩, -, -, -⟩
    have hpublic : publicState (stateText (stateOf (after (some loaded) between))) =
        publicState (stateText record.state) := congrArg JobStatus.state hsame
    have hattempts : loaded.job.attemptsMade = record.job.attemptsMade :=
      congrArg JobStatus.attempts hsame
    have hprogress : progressOf loaded = progressOf record := congrArg JobStatus.progress hsame
    have hplaced : ∀ found ∈ after (some loaded) between, ¬ Settled found.state → _ :=
      fun found hfound hnot ↦ (exists_instant_iff hkept hloaded hfound hnot).mp
        ⟨record, hrecord, by rw [SameName, ← hpublic, Option.mem_def.mp hfound]; rfl,
          hattempts.symm, hprogress.symm⟩
    constructor
    · by_contra hgone
      rw [Option.not_isSome_iff_eq_none.mp hgone] at hpublic
      exact publicState_unknown_ne (kept_of_mem hkept hrecord).state hpublic
    · intro found hfound hsettled
      rw [Option.mem_def.mp hfound] at hpublic
      have hstate : record.state = found.state := eq_of_publicState_eq hsettled hpublic.symm
      have hloadedSettled := loaded_settled hmem hrecord (hstate ▸ hsettled) hattempts.symm
      exact (((mem_of_found hloaded hfound).2.settled hloadedSettled).1).symm
    · exact fun found hfound hnot ↦ (hplaced found hfound hnot).1
    · exact fun found hfound hearlier ↦
        (hplaced found hfound (not_settled_of_phase_lt hearlier)).2 hearlier
  · rintro ⟨hthere, hsettled, honward, hagain⟩
    obtain ⟨found, hfound⟩ := Option.isSome_iff_exists.mp hthere
    have hfollows := (mem_of_found hloaded hfound).2
    by_cases hstate : Settled found.state
    · refine StatusConsistent.of_oneInstant hkept hloaded hmem ?_
      rw [hfound, hsettled found hfound hstate]
      rfl
    · obtain ⟨instant, hinstant, hpublic, hattempts, hprogress⟩ :=
        (exists_instant_iff hkept hloaded hfound hstate).mpr
          ⟨honward found hfound hstate, hagain found hfound⟩
      rw [progressOf, progressOf] at hprogress
      rw [SameName] at hpublic
      refine StatusConsistent.of_oneInstant hkept hloaded hinstant ?_
      have hinstantState : ¬ Settled instant.state := fun hsettledInstant ↦
        hstate (eq_of_publicState_eq hsettledInstant hpublic.symm ▸ hsettledInstant)
      have hid : loaded.job.id = instant.job.id :=
        (follows_of_mem hmem).id.trans (follows_of_mem hinstant).id.symm
      have hoperation : loaded.job.operation = instant.job.operation :=
        (follows_of_mem hmem).operation.trans (follows_of_mem hinstant).operation.symm
      rw [Settled, not_or] at hstate hinstantState
      rw [hfound]
      show statusOf ⟨loaded.job, fileId⟩ found.state = statusOf ⟨instant.job, fileId⟩ instant.state
      simp only [statusOf, if_neg hstate.1, if_neg hstate.2, if_neg hinstantState.1,
        if_neg hinstantState.2, hid, hoperation, hpublic, hattempts, hprogress]

/-- The instant of a snapshot of an unsettled job. -/
theorem unsettled_of_snapshot_eq {lifetime : List Record} {record : Record}
    (hrecord : record ∈ lifetime) {state : QueueState} (hnot : ¬ Settled state)
    (hsame : snapshot loaded.job state = snapshot record.job record.state) :
    ∃ instant ∈ lifetime, ¬ Settled instant.state ∧
      (instant.state = .active ↔ state = .active) ∧ progressOf instant = progressOf loaded := by
  have hevents := congrArg JobEvent.state hsame
  have hrecordNot : ¬ Settled record.state := by
    rintro (hcompleted | hfailed)
    · exact hnot (Or.inl ((snapshot_completed_iff loaded.job _).mp
        (hevents.trans ((snapshot_completed_iff record.job _).mpr hcompleted))))
    · exact hnot (Or.inr ((snapshot_failed_iff loaded.job _).mp
        (hevents.trans ((snapshot_failed_iff record.job _).mpr hfailed))))
  rw [snapshot_of_not_settled _ hnot, snapshot_of_not_settled _ hrecordNot] at hsame
  refine ⟨record, hrecord, hrecordNot, ?_, (congrArg JobEvent.progress hsame).symm⟩
  have hactive := congrArg JobEvent.state hsame
  simp only at hactive
  split_ifs at hactive with hfound hinstant hinstant
  · exact iff_of_true hinstant hfound
  · exact iff_of_false hinstant hfound

/-- A snapshot of a single instant has all that it owes. -/
theorem EventConsistent.of_oneInstant {first : Record} (hkept : Kept first)
    (hloaded : after (some first) before = some loaded) {record : Record}
    (hrecord : record ∈ instants first (before ++ between))
    (hsame : snapshot loaded.job (stateOf (after (some loaded) between)) =
      snapshot record.job record.state) :
    EventConsistent (instants first (before ++ between)) (after (some loaded) between)
      (snapshot loaded.job (stateOf (after (some loaded) between))) := by
  have hrecordKept := kept_of_mem hkept hrecord
  refine ⟨⟨record, hrecord, hsame⟩, ?_, ?_⟩
  · intro hstate
    have hcompleted := (snapshot_completed_iff record.job record.state).mp (hsame ▸ hstate)
    have hfoundState := (snapshot_completed_iff loaded.job _).mp hstate
    obtain ⟨result, hvalue⟩ := hrecordKept.completed hcompleted
    refine ⟨result, ?_, fun found hfound ↦ ?_⟩
    · rw [hsame, hcompleted]
      exact congrArg some hvalue
    · rw [Option.mem_def.mp hfound] at hfoundState
      rw [← hvalue]
      exact (outcome_eq_of_settled hrecord (mem_of_found hloaded hfound).1 (Or.inl hcompleted)
        (Or.inl hfoundState)).1
  · intro hstate
    have hfailed := (snapshot_failed_iff record.job record.state).mp (hsame ▸ hstate)
    have hfoundState := (snapshot_failed_iff loaded.job _).mp hstate
    obtain ⟨reason, hvalue⟩ := hrecordKept.failed hfailed
    refine ⟨reason, ?_, fun found hfound ↦ ?_⟩
    · rw [hsame, hfailed]
      exact hvalue
    · rw [Option.mem_def.mp hfound] at hfoundState
      rw [← hvalue]
      exact (outcome_eq_of_settled hrecord (mem_of_found hloaded hfound).1 (Or.inr hfailed)
        (Or.inr hfoundState)).2

/-- An instant that has not settled is active or not as the job is found, with the progress that was
loaded: it is the loaded one, unless that differs in the state. -/
theorem exists_unsettled_iff {first : Record} (hloaded : after (some first) before = some loaded)
    (state : QueueState) :
    (∃ instant ∈ instants first (before ++ between), ¬ Settled instant.state ∧
        (instant.state = .active ↔ state = .active) ∧ progressOf instant = progressOf loaded) ↔
      (state = .active → loaded.state ≠ .active →
        Shows (instants first (before ++ between)) (· = .active) (progressOf loaded)) ∧
      (state ≠ .active → (loaded.state = .active ∨ Settled loaded.state) →
        Shows (instants first (before ++ between))
          (fun state ↦ ¬ Settled state ∧ state ≠ .active) (progressOf loaded)) := by
  constructor
  · rintro ⟨instant, hinstant, hinstantNot, hactive, hprogress⟩
    exact ⟨fun hfound _ ↦ ⟨instant, hinstant, hactive.mpr hfound, hprogress⟩,
      fun hfound _ ↦ ⟨instant, hinstant, ⟨hinstantNot, fun h ↦ hfound (hactive.mp h)⟩, hprogress⟩⟩
  · rintro ⟨hstarted, hended⟩
    have hmem := mem_instants_of_after hloaded between
    by_cases hfound : state = .active
    · by_cases hactive : loaded.state = .active
      · exact ⟨loaded, hmem, hactive ▸ by decide, iff_of_true hactive hfound, rfl⟩
      · obtain ⟨instant, hinstant, hinstantActive, hprogress⟩ := hstarted hfound hactive
        exact ⟨instant, hinstant, hinstantActive ▸ by decide, iff_of_true hinstantActive hfound,
          hprogress⟩
    · by_cases hother : loaded.state = .active ∨ Settled loaded.state
      · obtain ⟨instant, hinstant, ⟨hinstantNot, hidle⟩, hprogress⟩ := hended hfound hother
        exact ⟨instant, hinstant, hinstantNot, iff_of_false hidle hfound, hprogress⟩
      · rw [not_or] at hother
        exact ⟨loaded, hmem, hother.2, iff_of_false hother.1 hfound, rfl⟩

/-- The opening snapshot is that of a single instant exactly when the job was loaded in time. -/
theorem eventConsistent_iff {first : Record} (hkept : Kept first)
    (hloaded : after (some first) before = some loaded) :
    EventConsistent (instants first (before ++ between)) (after (some loaded) between)
        (snapshot loaded.job (stateOf (after (some loaded) between))) ↔
      EventTimely first before between loaded := by
  have hmem := mem_instants_of_after hloaded between
  have hidentity : ∀ record ∈ instants first (before ++ between),
      loaded.job.id = record.job.id ∧ loaded.job.operation = record.job.operation :=
    fun record hrecord ↦ ⟨(follows_of_mem hmem).id.trans (follows_of_mem hrecord).id.symm,
      (follows_of_mem hmem).operation.trans (follows_of_mem hrecord).operation.symm⟩
  constructor
  · rintro ⟨⟨record, hrecord, hsame⟩, -, -⟩
    have hevents := congrArg JobEvent.state hsame
    have hplaced : ¬ Settled (stateOf (after (some loaded) between)) → _ := fun hnot ↦
      (exists_unsettled_iff hloaded _).mp (unsettled_of_snapshot_eq hrecord hnot hsame)
    refine ⟨?_, ?_, fun hactive ↦ ?_, fun hnot ↦ (hplaced hnot).2⟩
    · intro hcompleted
      rw [hcompleted] at hsame hevents
      have hstate := (snapshot_completed_iff record.job record.state).mp hevents.symm
      rw [hstate] at hsame
      have hvalue : loaded.job.returnvalue = record.job.returnvalue :=
        Option.some.inj (congrArg JobEvent.result hsame)
      by_contra hnot
      obtain ⟨result, hresult⟩ := (kept_of_mem hkept hrecord).completed hstate
      rw [(kept_of_mem hkept hmem).unfinished hnot, hresult] at hvalue
      cases hvalue
    · intro found hfound hfailed
      have hstateOf : stateOf (after (some loaded) between) = .failed := by
        rw [Option.mem_def.mp hfound]
        exact hfailed
      rw [hstateOf] at hsame hevents
      have hstate := (snapshot_failed_iff record.job record.state).mp hevents.symm
      rw [hstate] at hsame
      have hreason : loaded.job.failedReason = record.job.failedReason :=
        congrArg JobEvent.error hsame
      exact hreason.trans (outcome_eq_of_settled (mem_of_found hloaded hfound).1 hrecord
        (Or.inr hfailed) (Or.inr hstate)).2
    · exact (hplaced (hactive ▸ by decide)).1 hactive
  · rintro ⟨hcompleted, hfailed, hstarted, hended⟩
    by_cases hstate : Settled (stateOf (after (some loaded) between))
    · rcases hstate with hstate | hstate
      · refine EventConsistent.of_oneInstant hkept hloaded hmem ?_
        rw [hstate, hcompleted hstate]
      · cases hfound : after (some loaded) between with
        | none =>
          rw [hfound] at hstate
          cases hstate
        | some found =>
          have hin : found ∈ after (some loaded) between := hfound
          have hfoundState : found.state = .failed := by
            rw [hfound] at hstate
            exact hstate
          have hfoundMem := (mem_of_found hloaded hin).1
          rw [← hfound]
          refine EventConsistent.of_oneInstant hkept hloaded hfoundMem ?_
          rw [hstate, hfoundState]
          simp only [snapshot, hfailed found hin hfoundState, (hidentity found hfoundMem).1,
            (hidentity found hfoundMem).2]
    · obtain ⟨instant, hinstant, hinstantState, hactive, hprogress⟩ :=
        (exists_unsettled_iff hloaded _).mpr ⟨hstarted, hended hstate⟩
      rw [progressOf, progressOf] at hprogress
      refine EventConsistent.of_oneInstant hkept hloaded hinstant ?_
      rw [snapshot_of_not_settled _ hstate, snapshot_of_not_settled _ hinstantState]
      simp only [hactive, hprogress, (hidentity instant hinstant).1,
        (hidentity instant hinstant).2]

/-- A job that is handed to a worker, or whose delay runs out, keeps its fields. -/
theorem happen_of_moves (record : Record) {happening : Happening}
    (h : happening = .start ∨ happening = .promote) :
    ∃ next, happen record happening = some next ∧ next.job = record.job ∧
      (Settled next.state → record.state = next.state) := by
  rcases h with rfl | rfl
  · refine ⟨_, rfl, ?_⟩
    split_ifs with hstate
    · exact ⟨rfl, fun hactive ↦ absurd hactive (Unsettled.not_settled (Or.inr (Or.inl rfl)))⟩
    · exact ⟨rfl, fun _ ↦ rfl⟩
  · refine ⟨_, rfl, ?_⟩
    split_ifs with hstate
    · exact ⟨rfl, fun hwaiting ↦ absurd hwaiting (Unsettled.not_settled (Or.inl rfl))⟩
    · exact ⟨rfl, fun _ ↦ rfl⟩

theorem after_of_moves {record : Record} {happenings : List Happening}
    (h : ∀ happening ∈ happenings, happening = .start ∨ happening = .promote) :
    ∃ found, after (some record) happenings = some found ∧ found.job = record.job ∧
      (Settled found.state → record.state = found.state) := by
  induction happenings generalizing record with
  | nil => exact ⟨record, rfl, rfl, fun _ ↦ rfl⟩
  | cons happening rest ih =>
    obtain ⟨next, hnext, hjob, hstate⟩ :=
      happen_of_moves record (h happening List.mem_cons_self)
    obtain ⟨found, hfound, hfoundJob, hfoundState⟩ :=
      @ih next fun other hother ↦ h other (List.mem_cons_of_mem happening hother)
    refine ⟨found, ?_, hfoundJob.trans hjob, fun hsettled ↦ ?_⟩
    · show after (happen record happening) rest = some found
      rw [hnext, hfound]
    · have hsame := hfoundState hsettled
      exact (hstate (hsame ▸ hsettled)).trans hsame

/-- The job was loaded in time when nothing but its hand-over falls between the two reads. -/
theorem timely_of_moves {first : Record} (hkept : Kept first)
    (hloaded : after (some first) before = some loaded)
    (hmoves : ∀ happening ∈ between, happening = .start ∨ happening = .promote) :
    StatusTimely first before between loaded ∧ EventTimely first before between loaded := by
  obtain ⟨found, hfound, hjob, hstate⟩ := after_of_moves hmoves
  have hmem := (mem_of_found hloaded (Option.mem_def.mpr hfound)).1
  have hprogress : progressOf found = progressOf loaded := by rw [progressOf, progressOf, hjob]
  have hstateOf : stateOf (after (some loaded) between) = found.state := by rw [hfound]; rfl
  constructor
  · have hplaced : ∀ record ∈ after (some loaded) between, ¬ Settled record.state → _ :=
      fun record hrecord hnot ↦ (exists_instant_iff hkept hloaded hrecord hnot).mp
        ⟨found, hmem, by rw [Option.some.inj (hfound.symm.trans hrecord)]; rfl, by rw [hjob],
          hprogress⟩
    refine ⟨by rw [hfound]; rfl, fun record hrecord hsettled ↦ ?_,
      fun record hrecord hnot ↦ (hplaced record hrecord hnot).1, fun record hrecord hearlier ↦
        (hplaced record hrecord (not_settled_of_phase_lt hearlier)).2 hearlier⟩
    obtain rfl := Option.some.inj (hfound.symm.trans hrecord)
    exact hstate hsettled
  · have hplaced : ¬ Settled found.state → _ := fun hnot ↦
      (exists_unsettled_iff hloaded _).mp ⟨found, hmem, hnot, Iff.rfl, hprogress⟩
    rw [← hstateOf] at hplaced
    refine ⟨fun hcompleted ↦ ?_, fun record hrecord _ ↦ ?_, fun hactive ↦ ?_,
      fun hnot ↦ (hplaced hnot).2⟩
    · rw [hstateOf] at hcompleted
      exact (hstate (Or.inl hcompleted)).trans hcompleted
    · obtain rfl := Option.some.inj (hfound.symm.trans hrecord)
      rw [hjob]
    · exact (hplaced (hactive ▸ by decide)).1 hactive

end Reads

/-! ### One request -/

/-- Both readers, for every interleaving of one request with the life of the job: what is sent
belongs to a single instant exactly when the job was loaded in time. -/
theorem reads_consistent_iff (id : String) (operation : Operation) (attempts : Option ℕ)
    (fileId : String) (schedule : ℕ → List Happening) :
    (∀ status, (Program.run (world fileId schedule) getJobStatus 0
        (some (queued id operation attempts))).outcome = .ok (some status) →
      ∃ loaded, after (some (queued id operation attempts)) (schedule 0) = some loaded ∧
        (StatusConsistent fileId
            (instants (queued id operation attempts) (schedule 0 ++ schedule 1))
            (after (some loaded) (schedule 1)) status ↔
          StatusTimely (queued id operation attempts) (schedule 0) (schedule 1) loaded)) ∧
      ∀ stream event, (Program.run (world fileId schedule) (openStream id) 0
          (some (queued id operation attempts))).outcome = .ok stream →
        Output.event event ∈ stream.output →
        ∃ loaded, after (some (queued id operation attempts)) (schedule 0) = some loaded ∧
          (EventConsistent
              (instants (queued id operation attempts) (schedule 0 ++ (schedule 1 ++ schedule 2)))
              (after (some loaded) (schedule 1 ++ schedule 2)) event ↔
            EventTimely (queued id operation attempts) (schedule 0) (schedule 1 ++ schedule 2)
              loaded) := by
  have hkept := kept_queued id operation attempts
  constructor
  · intro status hreply
    rw [run_getJobStatus] at hreply
    obtain ⟨loaded, hloaded, rfl⟩ := Option.map_eq_some_iff.mp (Except.ok.inj hreply)
    exact ⟨loaded, hloaded, statusConsistent_iff hkept hloaded⟩
  · intro stream event hreply hevent
    rw [run_openStream] at hreply
    cases hloaded : after (some (queued id operation attempts)) (schedule 0) with
    | none =>
      rw [hloaded] at hreply
      rw [← Except.ok.inj hreply] at hevent
      have hwritten : Output.event event ∈ [Output.notFound] := hevent
      rw [List.mem_singleton] at hwritten
      cases hwritten
    | some loaded =>
      rw [hloaded] at hreply
      rw [← Except.ok.inj hreply] at hevent
      simp only [output_opened, List.mem_cons, List.not_mem_nil, or_false, reduceCtorEq,
        false_or, Output.event.injEq] at hevent
      rw [hevent]
      exact ⟨loaded, rfl, eventConsistent_iff hkept hloaded⟩

/-- A job that completes before it is asked after. -/
def completedBefore (calls : ℕ) : List Happening :=
  if calls = 0 then [.start, .complete { outputs := ["outputs/a.json"] }] else []

theorem consistent_completed :
    (∃ status, (Program.run (world "f1" completedBefore) getJobStatus 0
        (some (queued "1" .csvValidate (some 3)))).outcome = .ok (some status) ∧
      StatusConsistent "f1" (instants (queued "1" .csvValidate (some 3))
        (completedBefore 0 ++ completedBefore 1)) (after (after (some (queued "1" .csvValidate
          (some 3))) (completedBefore 0)) (completedBefore 1)) status) ∧
    ∃ stream event, (Program.run (world "f1" completedBefore) (openStream "1") 0
        (some (queued "1" .csvValidate (some 3)))).outcome = .ok stream ∧
      Output.event event ∈ stream.output ∧
      EventConsistent (instants (queued "1" .csvValidate (some 3))
        (completedBefore 0 ++ (completedBefore 1 ++ completedBefore 2))) (after (after (some
          (queued "1" .csvValidate (some 3))) (completedBefore 0))
            (completedBefore 1 ++ completedBefore 2)) event := by
  have hreads := reads_consistent_iff "1" .csvValidate (some 3) "f1" completedBefore
  constructor
  · obtain ⟨loaded, hloaded, hiff⟩ := hreads.1 _ rfl
    refine ⟨_, rfl, ?_⟩
    rw [hloaded]
    exact hiff.mpr (timely_of_moves (kept_queued ..) hloaded fun _ h ↦
      absurd h List.not_mem_nil).1
  · obtain ⟨loaded, hloaded, hiff⟩ := hreads.2 _ _ rfl
      (List.mem_cons_of_mem _ (List.mem_singleton_self _))
    refine ⟨_, _, rfl, List.mem_cons_of_mem _ (List.mem_singleton_self _), ?_⟩
    rw [hloaded]
    exact hiff.mpr (timely_of_moves (kept_queued ..) hloaded fun _ h ↦
      absurd h List.not_mem_nil).2

/-- A job that completes between the two reads. -/
def completedBetween (calls : ℕ) : List Happening :=
  if calls = 0 then [.start]
  else if calls = 1 then [.complete { outputs := ["outputs/a.json"] }] else []

/-- Its status says `completed` and has no result. -/
theorem not_consistent_completedBetween :
    ∃ status, (Program.run (world "f1" completedBetween) getJobStatus 0
        (some (queued "1" .csvValidate (some 3)))).outcome = .ok (some status) ∧
      ¬ StatusConsistent "f1" (instants (queued "1" .csvValidate (some 3))
        (completedBetween 0 ++ completedBetween 1)) (after (after (some (queued "1" .csvValidate
          (some 3))) (completedBetween 0)) (completedBetween 1)) status := by
  refine ⟨_, rfl, fun hconsistent ↦ ?_⟩
  obtain ⟨result, hresult, -⟩ := hconsistent.result rfl
  have hnull : some Json.null = some result.toJson := hresult
  cases Option.some.inj hnull

end FileForge.Jobs.JobReads
