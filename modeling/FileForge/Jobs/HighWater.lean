import FileForge.Foundation.EcmaObject
import FileForge.Jobs.ProgressOrder

/-!
# The marks that a worker keeps

The map `highWater` of `src/jobs/worker.ts`, over many jobs: the `progress` listener puts a mark in
it, and the `completed` listener takes it out. The `failed` listener of the same worker leaves the
map as it is. Any number of workers share the jobs, each with a map of its own; a worker that ends
an attempt settles the job and hears of it in one step, after the progress of that attempt.

`MarksAreLive` is the promise: a worker has marks of jobs only that have not settled, so no more
than there are of those. `marksAreLive_iff_meets` says which steps break it.
-/

set_option autoImplicit false
set_option relaxedAutoImplicit false

namespace FileForge.Jobs.HighWater

open Foundation.Execution Foundation.EcmaObject Foundation.JsonValue
open Errors Queue Worker ProgressOrder

/-! ### The workers -/

/-- A job, and the worker that runs an attempt of it. -/
structure Tracked where
  job : Job
  runner : Option ℕ := none
  settled : Bool := false

structure State where
  /-- The jobs by their ids, as they were added. -/
  jobs : List (String × Tracked) := []
  /-- The map of each worker. -/
  highWater : ℕ → List (String × ℚ) := fun _ ↦ []

inductive Action
  /-- A job is added to the queue under a fresh id. -/
  | add (job : Job)
  /-- A worker takes up a job. -/
  | start (worker : ℕ) (id : String)
  /-- The worker of a job emits `progress`. -/
  | progress (id : String) (progress : Json)
  /-- The processor returns: the worker emits `completed`. -/
  | complete (id : String)
  /-- The processor throws: the worker emits `failed`. -/
  | fail (id : String) (error : JobError)

/-- A job that a worker runs, and that worker. -/
def State.running (state : State) (id : String) : Option (Tracked × ℕ) :=
  (state.jobs.lookup id).bind fun tracked ↦ tracked.runner.map fun worker ↦ (tracked, worker)

def State.setJob (state : State) (id : String) (tracked : Tracked) : State :=
  { state with jobs := put id tracked state.jobs }

/-- `highWater.set(id, value)`. -/
def State.setMark (state : State) (worker : ℕ) (id : String) (value : ℚ) : State :=
  { state with
    highWater := Function.update state.highWater worker (put id value (state.highWater worker)) }

/-- `highWater.delete(id)`. -/
def State.deleteMark (state : State) (worker : ℕ) (id : String) : State :=
  { state with
    highWater := Function.update state.highWater worker
      ((state.highWater worker).filter fun mark ↦ mark.1 ≠ id) }

def step (state : State) : Action → Option State
  | .add job =>
    if (state.jobs.lookup job.id).isNone then some (state.setJob job.id { job := job }) else none
  | .start worker id =>
    match state.jobs.lookup id with
    | some tracked =>
      if tracked.settled = false ∧ tracked.runner = none then
        some (state.setJob id { tracked with runner := some worker })
      else none
    | none => none
  | .progress id progress =>
    match state.running id with
    | some (_, worker) =>
      match onProgress ((state.highWater worker).lookup id) progress with
      | some value => some (state.setMark worker id value)
      | none => some state
    | none => none
  | .complete id =>
    match state.running id with
    | some (tracked, worker) =>
      some ((state.setJob id { tracked with runner := none, settled := true }).deleteMark worker id)
    | none => none
  | .fail id error =>
    match state.running id with
    | some (tracked, _) =>
      some (state.setJob id {
        job := { tracked.job with attemptsMade := tracked.job.attemptsMade + 1 }
        runner := none
        settled := announcesFailure tracked.job error.marked })
    | none => none

/-- Any number of workers, and no job yet. -/
def workers : System State Action where
  start := {}
  step := step

/-! ### The promise -/

/-- The jobs that have not settled. -/
def State.live (state : State) : List String :=
  (state.jobs.filter fun entry ↦ !entry.2.settled).map Prod.fst

def State.marked (state : State) (worker : ℕ) : List String :=
  (state.highWater worker).map Prod.fst

/-- Every worker has marks of jobs that have not settled, and no more than there are of those. -/
def MarksAreLive (state : State) : Prop :=
  ∀ worker, (∀ id ∈ state.marked worker, id ∈ state.live) ∧
    (state.marked worker).length ≤ state.live.length

/-- A step that keeps the promise: a job does not fail for good while a worker has a mark of it,
and it does not complete while another worker than the one that runs it has. -/
def Forgets (state : State) : Action → Prop
  | .complete id => ∀ tracked worker, state.running id = some (tracked, worker) →
      ∀ other, other ≠ worker → id ∉ state.marked other
  | .fail id error => ∀ tracked worker, state.running id = some (tracked, worker) →
      announcesFailure tracked.job error.marked = true → ∀ other, id ∉ state.marked other
  | _ => True

/-! ### What holds in every state -/

/-- The job is known and has not settled. -/
def State.IsLive (state : State) (id : String) : Prop :=
  ∃ tracked, state.jobs.lookup id = some tracked ∧ tracked.settled = false

structure Accounted (state : State) : Prop where
  ids : (state.jobs.map Prod.fst).Nodup
  marks : ∀ worker, (state.marked worker).Nodup
  known : ∀ worker, ∀ id ∈ state.marked worker, (state.jobs.lookup id).isSome = true
  running : ∀ id tracked worker, state.running id = some (tracked, worker) →
    tracked.settled = false

/-- A mark of every worker is one of a job that has not settled. -/
def AllLive (state : State) : Prop :=
  ∀ worker, ∀ id ∈ state.marked worker, state.IsLive id

theorem mem_live_iff {state : State} (hids : (state.jobs.map Prod.fst).Nodup) (id : String) :
    id ∈ state.live ↔ state.IsLive id := by
  simp only [State.live, State.IsLive, List.mem_map, List.mem_filter, Prod.exists,
    exists_and_right, exists_eq_right, lookup_eq_some_iff_mem hids, Bool.not_eq_true']

/-- The number of marks follows. -/
theorem Accounted.marksAreLive_iff {state : State} (h : Accounted state) :
    MarksAreLive state ↔ AllLive state := by
  constructor
  · exact fun hlive worker id hid ↦ (mem_live_iff h.ids id).mp ((hlive worker).1 id hid)
  · intro hlive worker
    have hsubset : ∀ id ∈ state.marked worker, id ∈ state.live := fun id hid ↦
      (mem_live_iff h.ids id).mpr (hlive worker id hid)
    exact ⟨hsubset, (List.subperm_of_subset (h.marks worker) hsubset).length_le⟩

theorem accounted_start : Accounted workers.start where
  ids := List.nodup_nil
  marks := fun _ ↦ List.nodup_nil
  known := fun _ _ hid ↦ absurd hid List.not_mem_nil
  running := fun _ _ _ hrunning ↦ nomatch hrunning

/-! ### The updates -/

section Updates

variable {state : State}

theorem running_eq_some_iff {id : String} {tracked : Tracked} {worker : ℕ} :
    state.running id = some (tracked, worker) ↔
      state.jobs.lookup id = some tracked ∧ tracked.runner = some worker := by
  rw [State.running, Option.bind_eq_some_iff]
  constructor
  · rintro ⟨found, hfound, hrunner⟩
    obtain ⟨runner, hrunner, hpair⟩ := Option.map_eq_some_iff.mp hrunner
    cases hpair
    exact ⟨hfound, hrunner⟩
  · rintro ⟨hfound, hrunner⟩
    exact ⟨tracked, hfound, by rw [hrunner]; rfl⟩

theorem isLive_setJob_iff (id other : String) (tracked : Tracked) :
    (state.setJob id tracked).IsLive other ↔
      if other = id then tracked.settled = false else state.IsLive other := by
  simp only [State.IsLive, State.setJob, lookup_put]
  split_ifs with heq
  · simp
  · rfl

/-- Assumes: a job that runs has not settled. -/
theorem Accounted.setJob (h : Accounted state) (id : String) {tracked : Tracked}
    (hsettled : ∀ worker, tracked.runner = some worker → tracked.settled = false) :
    Accounted (state.setJob id tracked) where
  ids := nodup_names_put id tracked h.ids
  marks := h.marks
  known := by
    intro worker other hother
    rw [State.setJob, lookup_put]
    split_ifs
    · rfl
    · exact h.known worker other hother
  running := by
    intro other found worker hrunning
    rw [running_eq_some_iff, State.setJob, lookup_put] at hrunning
    obtain ⟨hfound, hrunner⟩ := hrunning
    split_ifs at hfound
    · cases hfound
      exact hsettled worker hrunner
    · exact h.running other found worker (running_eq_some_iff.mpr ⟨hfound, hrunner⟩)

theorem marked_setMark (worker : ℕ) (id : String) (value : ℚ) :
    (state.setMark worker id value).marked worker =
      (put id value (state.highWater worker)).map Prod.fst :=
  congrArg (List.map Prod.fst) (Function.update_self _ _ _)

theorem marked_setMark_of_ne {worker other : ℕ} (h : other ≠ worker) (id : String) (value : ℚ) :
    (state.setMark worker id value).marked other = state.marked other :=
  congrArg (List.map Prod.fst) (Function.update_of_ne h _ _)

theorem mem_marked_setMark_iff (worker other : ℕ) (id key : String) (value : ℚ) :
    key ∈ (state.setMark worker id value).marked other ↔
      (other = worker ∧ key = id) ∨ key ∈ state.marked other := by
  by_cases hother : other = worker
  · rw [hother, marked_setMark, mem_names_put]
    simp [State.marked]
  · rw [marked_setMark_of_ne hother]
    simp [hother]

theorem Accounted.setMark (h : Accounted state) (worker : ℕ) {id : String} (value : ℚ)
    (hknown : (state.jobs.lookup id).isSome = true) :
    Accounted (state.setMark worker id value) where
  ids := h.ids
  marks := by
    intro other
    by_cases hother : other = worker
    · rw [hother, marked_setMark]
      exact nodup_names_put id value (h.marks worker)
    · rw [marked_setMark_of_ne hother]
      exact h.marks other
  known := by
    intro other key hkey
    rcases (mem_marked_setMark_iff worker other id key value).mp hkey with ⟨-, rfl⟩ | hold
    · exact hknown
    · exact h.known other key hold
  running := h.running

theorem marked_deleteMark (worker : ℕ) (id : String) :
    (state.deleteMark worker id).marked worker =
      ((state.highWater worker).filter fun mark ↦ mark.1 ≠ id).map Prod.fst :=
  congrArg (List.map Prod.fst) (Function.update_self _ _ _)

theorem marked_deleteMark_of_ne {worker other : ℕ} (h : other ≠ worker) (id : String) :
    (state.deleteMark worker id).marked other = state.marked other :=
  congrArg (List.map Prod.fst) (Function.update_of_ne h _ _)

theorem mem_marked_deleteMark_iff (worker other : ℕ) (id key : String) :
    key ∈ (state.deleteMark worker id).marked other ↔
      key ∈ state.marked other ∧ ¬ (other = worker ∧ key = id) := by
  by_cases hother : other = worker
  · rw [hother, marked_deleteMark]
    simp [State.marked, List.mem_filter]
  · rw [marked_deleteMark_of_ne hother]
    simp [hother]

theorem Accounted.deleteMark (h : Accounted state) (worker : ℕ) (id : String) :
    Accounted (state.deleteMark worker id) where
  ids := h.ids
  marks := by
    intro other
    by_cases hother : other = worker
    · rw [hother, marked_deleteMark]
      exact (h.marks worker).sublist (List.filter_sublist.map Prod.fst)
    · rw [marked_deleteMark_of_ne hother]
      exact h.marks other
  known := fun other key hkey ↦
    h.known other key ((mem_marked_deleteMark_iff worker other id key).mp hkey).1
  running := h.running

end Updates

/-! ### One step -/

section Steps

variable {state after : State}

/-- A job that goes on. Assumes: a marked job of this id has not settled. -/
theorem allLive_setJob_of_open {id : String} {tracked : Tracked} (hopen : tracked.settled = false)
    (hlive : ∀ worker, id ∈ state.marked worker → state.IsLive id) :
    AllLive (state.setJob id tracked) ↔ AllLive state := by
  refine forall_congr' fun worker ↦ forall₂_congr fun key hkey ↦ ?_
  rw [isLive_setJob_iff]
  split_ifs with heq
  · rw [heq] at hkey ⊢
    exact iff_of_true hopen (hlive worker hkey)
  · rfl

/-- A job that settles. -/
theorem allLive_setJob_of_settled {id : String} {tracked : Tracked}
    (hsettled : tracked.settled = true) :
    AllLive (state.setJob id tracked) ↔ AllLive state ∧ ∀ worker, id ∉ state.marked worker := by
  have hnot : ∀ key, (state.setJob id tracked).IsLive key ↔ key ≠ id ∧ state.IsLive key := by
    intro key
    rw [isLive_setJob_iff, hsettled]
    split_ifs with heq
    · simp [heq]
    · simp [heq]
  constructor
  · intro h
    refine ⟨fun worker key hkey ↦ ((hnot key).mp (h worker key hkey)).2, fun worker hmarked ↦ ?_⟩
    exact ((hnot id).mp (h worker id hmarked)).1 rfl
  · rintro ⟨hlive, hunmarked⟩ worker key hkey
    refine (hnot key).mpr ⟨?_, hlive worker key hkey⟩
    rintro rfl
    exact hunmarked worker hkey

theorem add_spec (h : Accounted state) {job : Job} (hstep : step state (.add job) = some after) :
    Accounted after ∧ (AllLive after ↔ AllLive state ∧ Forgets state (.add job)) := by
  simp only [step] at hstep
  split_ifs at hstep with hfresh
  rw [← Option.some.inj hstep]
  have hunmarked : ∀ worker, job.id ∉ state.marked worker := by
    intro worker hmarked
    have hknown := h.known worker job.id hmarked
    rw [Option.isNone_iff_eq_none.mp hfresh] at hknown
    cases hknown
  have hsame : AllLive (state.setJob job.id { job := job }) ↔ AllLive state :=
    allLive_setJob_of_open rfl fun worker hmarked ↦ absurd hmarked (hunmarked worker)
  exact ⟨h.setJob job.id fun _ _ ↦ rfl, hsame.trans (and_iff_left trivial).symm⟩

theorem start_spec (h : Accounted state) {worker : ℕ} {id : String}
    (hstep : step state (.start worker id) = some after) :
    Accounted after ∧ (AllLive after ↔ AllLive state ∧ Forgets state (.start worker id)) := by
  simp only [step] at hstep
  split at hstep
  · rename_i tracked hlookup
    split_ifs at hstep with hopen
    rw [← Option.some.inj hstep]
    have hsame : AllLive (state.setJob id { tracked with runner := some worker }) ↔
        AllLive state :=
      allLive_setJob_of_open hopen.1 fun _ _ ↦ ⟨tracked, hlookup, hopen.1⟩
    exact ⟨h.setJob id fun _ _ ↦ hopen.1, hsame.trans (and_iff_left trivial).symm⟩
  · cases hstep

theorem progress_spec (h : Accounted state) {id : String} {progress : Json}
    (hstep : step state (.progress id progress) = some after) :
    Accounted after ∧ (AllLive after ↔ AllLive state ∧ Forgets state (.progress id progress)) := by
  simp only [step] at hstep
  split at hstep
  · rename_i tracked worker hrunning
    have hlookup := (running_eq_some_iff.mp hrunning).1
    split at hstep
    · rename_i value _
      rw [← Option.some.inj hstep]
      refine ⟨h.setMark worker value (by rw [hlookup]; rfl), ?_⟩
      have hlive : state.IsLive id := ⟨tracked, hlookup, h.running id tracked worker hrunning⟩
      constructor
      · intro hafter
        refine ⟨fun other key hkey ↦ ?_, trivial⟩
        exact hafter other key ((mem_marked_setMark_iff worker other id key value).mpr (Or.inr hkey))
      · rintro ⟨hbefore, -⟩ other key hkey
        rcases (mem_marked_setMark_iff worker other id key value).mp hkey with ⟨-, rfl⟩ | hold
        · exact hlive
        · exact hbefore other key hold
    · rw [← Option.some.inj hstep]
      exact ⟨h, (and_iff_left trivial).symm⟩
  · cases hstep

theorem complete_spec (h : Accounted state) {id : String}
    (hstep : step state (.complete id) = some after) :
    Accounted after ∧ (AllLive after ↔ AllLive state ∧ Forgets state (.complete id)) := by
  simp only [step] at hstep
  split at hstep
  · rename_i tracked worker hrunning
    rw [← Option.some.inj hstep]
    refine ⟨(h.setJob id fun _ hrunner ↦ by cases hrunner).deleteMark worker id, ?_⟩
    have hforgets : Forgets state (.complete id) ↔
        ∀ other, other ≠ worker → id ∉ state.marked other := by
      simp [Forgets, hrunning]
    have hlive : state.IsLive id :=
      ⟨tracked, (running_eq_some_iff.mp hrunning).1, h.running id tracked worker hrunning⟩
    have hafter : AllLive ((state.setJob id { tracked with runner := none, settled := true }
        ).deleteMark worker id) ↔ ∀ other, ∀ key ∈ state.marked other,
          ¬ (other = worker ∧ key = id) → key ≠ id ∧ state.IsLive key := by
      refine forall_congr' fun other ↦ forall_congr' fun key ↦ ?_
      rw [mem_marked_deleteMark_iff, and_imp]
      refine imp_congr Iff.rfl (imp_congr Iff.rfl ?_)
      show (state.setJob id { tracked with runner := none, settled := true }).IsLive key ↔ _
      rw [isLive_setJob_iff]
      split_ifs with heq <;> simp [heq]
    rw [hafter, hforgets]
    constructor
    · intro hkept
      refine ⟨fun other key hkey ↦ ?_, fun other hother hmarked ↦ ?_⟩
      · by_cases heq : key = id
        · rw [heq]
          exact hlive
        · exact (hkept other key hkey fun hboth ↦ heq hboth.2).2
      · exact (hkept other id hmarked fun hboth ↦ hother hboth.1).1 rfl
    · rintro ⟨hbefore, hothers⟩ other key hkey hnot
      refine ⟨?_, hbefore other key hkey⟩
      rintro rfl
      exact hothers other (fun hsame ↦ hnot ⟨hsame, rfl⟩) hkey
  · cases hstep

theorem fail_spec (h : Accounted state) {id : String} {error : JobError}
    (hstep : step state (.fail id error) = some after) :
    Accounted after ∧ (AllLive after ↔ AllLive state ∧ Forgets state (.fail id error)) := by
  simp only [step] at hstep
  split at hstep
  · rename_i tracked worker hrunning
    rw [← Option.some.inj hstep]
    refine ⟨h.setJob id (fun _ hrunner ↦ by cases hrunner), ?_⟩
    have hforgets : Forgets state (.fail id error) ↔
        (announcesFailure tracked.job error.marked = true → ∀ other, id ∉ state.marked other) := by
      simp [Forgets, hrunning]
    have hlive : state.IsLive id :=
      ⟨tracked, (running_eq_some_iff.mp hrunning).1, h.running id tracked worker hrunning⟩
    rw [hforgets]
    cases hfinal : announcesFailure tracked.job error.marked with
    | true =>
      rw [allLive_setJob_of_settled rfl]
      exact and_congr_right fun _ ↦ ⟨fun hunmarked _ ↦ hunmarked, fun himp ↦ himp rfl⟩
    | false =>
      rw [allLive_setJob_of_open rfl fun _ _ ↦ hlive]
      exact (and_iff_left fun htrue ↦ absurd htrue Bool.false_ne_true).symm
  · cases hstep

/-- The step lemma: a step keeps the promise exactly when it forgets what settles. -/
theorem step_spec (h : Accounted state) {action : Action} (hstep : step state action = some after) :
    Accounted after ∧ (AllLive after ↔ AllLive state ∧ Forgets state action) := by
  cases action with
  | add job => exact add_spec h hstep
  | start worker id => exact start_spec h hstep
  | progress id progress => exact progress_spec h hstep
  | complete id => exact complete_spec h hstep
  | fail id error => exact fail_spec h hstep

end Steps

/-! ### Whole runs -/

/-- In every state of a run the marks of every worker are of jobs that have not settled, and no more
than those, exactly when every step forgets what settles. -/
theorem marksAreLive_iff_meets (actions : List Action) (state : State)
    (hrun : workers.run actions = some state) :
    MarksAreLive state ↔ workers.Meets Forgets actions := by
  have hall := System.iff_meets Accounted AllLive accounted_start
    (fun _ _ hid ↦ absurd hid List.not_mem_nil)
    (fun _ _ _ haccounted hstep ↦ step_spec haccounted hstep) hrun
  rw [hall.1.marksAreLive_iff, hall.2]

/-- A job that completes on the worker that has its mark. -/
theorem marksAreLive_completed :
    ∃ state, workers.run [.add exampleJob, .start 0 "1", .progress "1" (.number 10),
      .complete "1"] = some state ∧ MarksAreLive state := by
  have hstarted : workers.Meets Forgets
      [.add exampleJob, .start 0 "1", .progress "1" (.number 10)] :=
    System.meets_of_forall fun action haction state ↦ by
      simp only [List.mem_cons, List.not_mem_nil, or_false] at haction
      rcases haction with rfl | rfl | rfl <;> exact trivial
  have hcompleted : workers.Meets Forgets ([.add exampleJob, .start 0 "1",
      .progress "1" (.number 10)] ++ [.complete "1"]) := by
    refine hstarted.concat fun state hstate tracked worker hrunning other hother ↦ ?_
    obtain rfl := Option.some.inj hstate
    obtain ⟨-, rfl⟩ := Prod.mk.inj (Option.some.inj hrunning)
    intro hmarked
    have hmem : "1" ∈ (({} : State).setMark 0 "1" 10).marked other := hmarked
    rw [marked_setMark_of_ne hother] at hmem
    exact List.not_mem_nil hmem
  exact ⟨_, rfl, (marksAreLive_iff_meets [.add exampleJob, .start 0 "1",
    .progress "1" (.number 10), .complete "1"] _ rfl).mpr hcompleted⟩

/-- A job whose file is gone fails for good and stays in the map. -/
theorem not_forall_marksAreLive :
    ¬ ∀ (actions : List Action) (state : State), workers.run actions = some state →
      MarksAreLive state := by
  intro h
  have hfailed := h [.add exampleJob, .start 0 "1", .progress "1" (.number 10),
    .fail "1" (.missingFile "f")] _ rfl
  exact absurd ((hfailed 0).2) (by decide)

end FileForge.Jobs.HighWater
