import FileForge.Foundation.Execution
import Mathlib.Data.List.Basic
import Mathlib.Logic.Function.Basic

/-!
# Processes that stop

A process has work in flight, and is told to stop by signals. Each signal starts a shutdown of its
own, which goes through the stages of the plan one after the other: a `drain` closes a source of
work and waits until none of it is in flight, a `release` waits for something else. The process
exits with the first shutdown that comes to the end of the stages, with the first stage that fails,
or with the first timer that runs out.

`Sound` is what every step keeps: behind a drain there is no work, and none arrives. `drained_run`
says what is still in flight when a process has exited, and `now_le_of_punctual` when it has. Both
are about every order of signals, work, stages and timers.
-/

set_option autoImplicit false
set_option relaxedAutoImplicit false

namespace FileForge.Foundation.Draining

open Execution

variable {Resource : Type*}

/-! ### Plans -/

/-- What a shutdown waits for. -/
inductive Stage (Resource : Type*)
  /-- The source of work is closed, and its work in flight ends. -/
  | drain (resource : Resource)
  | release
  deriving DecidableEq

structure Plan (Resource : Type*) where
  stages : List (Stage Resource)
  timeout : ℕ
  mayFail : Stage Resource → Bool

/-- A shutdown on its way. -/
structure Shutdown where
  startedAt : ℕ
  /-- The number of stages behind it. -/
  passed : ℕ
  deriving DecidableEq, Repr

inductive Ending
  | completed
  | failed
  | timedOut
  deriving DecidableEq, Repr

/-- How a process has exited: with which of its shutdowns. -/
structure Exit where
  ending : Ending
  index : ℕ
  deriving DecidableEq, Repr

structure Process (Resource : Type*) where
  now : ℕ := 0
  inFlight : Resource → ℕ := fun _ ↦ 0
  shutdowns : List Shutdown := []
  exit : Option Exit := none

/-- The moment of the first signal. -/
def Process.signalledAt (process : Process Resource) : Option ℕ :=
  process.shutdowns.head?.map Shutdown.startedAt

inductive Action (Resource : Type*)
  | arrive (resource : Resource)
  | finish (resource : Resource)
  | signal
  /-- What a shutdown waits for has happened. -/
  | resolve (index : ℕ)
  | reject (index : ℕ)
  /-- The timer of a shutdown. -/
  | fire (index : ℕ)
  | pass (time : ℕ)

/-- The stage has to wait. -/
def Stage.Waits (stage : Stage Resource) (process : Process Resource) : Prop :=
  ∃ resource, stage = .drain resource ∧ process.inFlight resource ≠ 0

instance (stage : Stage Resource) (process : Process Resource) : Decidable (stage.Waits process) :=
  match stage with
  | .drain resource =>
    decidable_of_iff (process.inFlight resource ≠ 0)
      ⟨fun h ↦ ⟨resource, rfl, h⟩, fun ⟨_, heq, h⟩ ↦ Stage.drain.inj heq ▸ h⟩
  | .release => isFalse fun ⟨_, heq, _⟩ ↦ by cases heq

/-- A shutdown goes on to the next stage, behind the last of which the process exits. -/
def Plan.goOn (plan : Plan Resource) (process : Process Resource) (index : ℕ)
    (shutdown : Shutdown) : Process Resource :=
  { process with
    shutdowns := process.shutdowns.set index { shutdown with passed := shutdown.passed + 1 }
    exit := if shutdown.passed + 1 = plan.stages.length then some ⟨.completed, index⟩ else none }

/-! ### What is kept -/

/-- The exit is as its ending says. -/
def Plan.Accounts (plan : Plan Resource) (process : Process Resource) (exit : Exit) : Prop :=
  ∃ shutdown, process.shutdowns[exit.index]? = some shutdown ∧
    match exit.ending with
    | .completed => shutdown.passed = plan.stages.length
    | .failed => ∃ stage, plan.stages[shutdown.passed]? = some stage ∧ plan.mayFail stage = true
    | .timedOut => shutdown.startedAt + plan.timeout ≤ process.now

structure Plan.Sound (plan : Plan Resource) (process : Process Resource) : Prop where
  /-- Behind a drain nothing is in flight. -/
  drained : ∀ shutdown ∈ process.shutdowns, ∀ resource,
    .drain resource ∈ plan.stages.take shutdown.passed → process.inFlight resource = 0
  started : ∀ shutdown ∈ process.shutdowns, shutdown.startedAt ≤ process.now
  first : ∀ shutdown ∈ process.shutdowns, ∃ signalled ∈ process.signalledAt,
    signalled ≤ shutdown.startedAt
  exit : ∀ exit ∈ process.exit, plan.Accounts process exit

variable {plan : Plan Resource} {process after : Process Resource}

/-- A shutdown that goes on keeps its start, and so does the first one. -/
theorem signalledAt_goOn {index : ℕ} {shutdown : Shutdown}
    (hindex : process.shutdowns[index]? = some shutdown) :
    (plan.goOn process index shutdown).signalledAt = process.signalledAt := by
  unfold Process.signalledAt Plan.goOn
  cases hshutdowns : process.shutdowns with
  | nil => rfl
  | cons first rest =>
    cases index with
    | zero =>
      rw [hshutdowns, List.getElem?_cons_zero, Option.some.injEq] at hindex
      rw [hindex]
      rfl
    | succ index => rfl

theorem Plan.Sound.signal (h : plan.Sound process) (hexit : process.exit = none) :
    plan.Sound { process with shutdowns := process.shutdowns ++ [⟨process.now, 0⟩] } := by
  refine ⟨fun shutdown hshutdown ↦ ?_, fun shutdown hshutdown ↦ ?_, fun shutdown hshutdown ↦ ?_,
    fun exit hmem ↦ ?_⟩
  · rcases List.mem_append.mp hshutdown with hold | hnew
    · exact h.drained shutdown hold
    · obtain rfl := List.mem_singleton.mp hnew
      exact fun resource hdrain ↦ absurd hdrain List.not_mem_nil
  · rcases List.mem_append.mp hshutdown with hold | hnew
    · exact h.started shutdown hold
    · obtain rfl := List.mem_singleton.mp hnew
      exact Nat.le_refl _
  · cases hshutdowns : process.shutdowns with
    | nil =>
      rw [hshutdowns, List.nil_append] at hshutdown
      obtain rfl := List.mem_singleton.mp hshutdown
      exact ⟨process.now, by simp [Process.signalledAt], Nat.le_refl _⟩
    | cons first rest =>
      have hsignalled : ({ process with
          shutdowns := process.shutdowns ++ [⟨process.now, 0⟩] } : Process Resource).signalledAt =
            process.signalledAt := by
        simp [Process.signalledAt, hshutdowns]
      rw [← hshutdowns, hsignalled]
      rcases List.mem_append.mp hshutdown with hold | hnew
      · exact h.first shutdown hold
      · obtain ⟨signalled, hmem, hle⟩ := h.first first (hshutdowns ▸ List.mem_cons_self)
        obtain rfl := List.mem_singleton.mp hnew
        exact ⟨signalled, hmem, Nat.le_trans hle (h.started first (hshutdowns ▸ List.mem_cons_self))⟩
  · rw [hexit] at hmem
    cases hmem

/-- A stage that does not have to wait is behind a shutdown. -/
theorem Plan.Sound.goOn (h : plan.Sound process) {index : ℕ} {shutdown : Shutdown}
    {stage : Stage Resource} (hindex : process.shutdowns[index]? = some shutdown)
    (hstage : plan.stages[shutdown.passed]? = some stage) (hwaits : ¬ stage.Waits process) :
    plan.Sound (plan.goOn process index shutdown) := by
  have hmem : shutdown ∈ process.shutdowns := List.mem_of_getElem? hindex
  have hlt : index < process.shutdowns.length := (List.getElem?_eq_some_iff.mp hindex).1
  have hset : ∀ other ∈ (plan.goOn process index shutdown).shutdowns,
      other ∈ process.shutdowns ∨ other = { shutdown with passed := shutdown.passed + 1 } :=
    fun other hother ↦ List.mem_or_eq_of_mem_set hother
  refine ⟨fun other hother ↦ ?_, fun other hother ↦ ?_, fun other hother ↦ ?_,
    fun exit hexit ↦ ?_⟩
  · rcases hset other hother with hold | rfl
    · exact h.drained other hold
    · intro resource hdrain
      rw [List.take_add_one, hstage, List.mem_append] at hdrain
      rcases hdrain with hbefore | hhere
      · exact h.drained shutdown hmem resource hbefore
      · have heq : stage = .drain resource := (List.mem_singleton.mp hhere).symm
        by_contra hflight
        exact hwaits ⟨resource, heq, hflight⟩
  · rcases hset other hother with hold | rfl
    · exact h.started other hold
    · exact h.started shutdown hmem
  · rw [signalledAt_goOn hindex]
    rcases hset other hother with hold | rfl
    · exact h.first other hold
    · exact h.first shutdown hmem
  · have hcases : (if shutdown.passed + 1 = plan.stages.length then
        some (⟨.completed, index⟩ : Exit) else none) = some exit := hexit
    split_ifs at hcases with hlast
    obtain rfl := Option.some.inj hcases
    exact ⟨_, List.getElem?_set_self hlt, hlast⟩

/-- Work that arrives comes to an open source, so no shutdown is behind its drain. -/
theorem Plan.Sound.work (h : plan.Sound process) (hexit : process.exit = none)
    {inFlight : Resource → ℕ}
    (hwork : ∀ shutdown ∈ process.shutdowns, ∀ resource,
      .drain resource ∈ plan.stages.take shutdown.passed → process.inFlight resource = 0 →
        inFlight resource = 0) :
    plan.Sound { process with inFlight := inFlight } where
  drained shutdown hshutdown resource hdrain :=
    hwork shutdown hshutdown resource hdrain (h.drained shutdown hshutdown resource hdrain)
  started := h.started
  first := h.first
  exit exit hmem := by
    rw [hexit] at hmem
    cases hmem

/-! ### Steps and runs -/

variable [DecidableEq Resource]

/-- A shutdown has come to the drain of the resource, or is behind it. -/
def Plan.Closed (plan : Plan Resource) (process : Process Resource) (resource : Resource) : Prop :=
  ∃ shutdown ∈ process.shutdowns, .drain resource ∈ plan.stages.take (shutdown.passed + 1)

instance (plan : Plan Resource) (process : Process Resource) (resource : Resource) :
    Decidable (plan.Closed process resource) :=
  inferInstanceAs (Decidable (∃ shutdown ∈ process.shutdowns, _))

/-- An action of a process that is there. -/
def Plan.act (plan : Plan Resource) (process : Process Resource) :
    Action Resource → Option (Process Resource)
  | .arrive resource =>
    if plan.Closed process resource then none
    else some { process with
      inFlight := Function.update process.inFlight resource (process.inFlight resource + 1) }
  | .finish resource =>
    if process.inFlight resource = 0 then none
    else some { process with
      inFlight := Function.update process.inFlight resource (process.inFlight resource - 1) }
  | .signal => some { process with shutdowns := process.shutdowns ++ [⟨process.now, 0⟩] }
  | .resolve index =>
    process.shutdowns[index]?.bind fun shutdown ↦ plan.stages[shutdown.passed]?.bind fun stage ↦
      if stage.Waits process then none else some (plan.goOn process index shutdown)
  | .reject index =>
    process.shutdowns[index]?.bind fun shutdown ↦ plan.stages[shutdown.passed]?.bind fun stage ↦
      if plan.mayFail stage then some { process with exit := some ⟨.failed, index⟩ } else none
  | .fire index =>
    process.shutdowns[index]?.bind fun shutdown ↦
      if shutdown.startedAt + plan.timeout ≤ process.now then
        some { process with exit := some ⟨.timedOut, index⟩ }
      else none
  | .pass time => some { process with now := process.now + time }

/-- One action. An exited process takes none. -/
def Plan.step (plan : Plan Resource) (process : Process Resource) (action : Action Resource) :
    Option (Process Resource) :=
  if process.exit = none then plan.act process action else none

/-- The runs of a process. -/
def Plan.system (plan : Plan Resource) : System (Process Resource) (Action Resource) where
  start := {}
  step := plan.step

/-- No time passes over a timer that has run out. -/
def Plan.Punctual (plan : Plan Resource) (process : Process Resource) : Action Resource → Prop
  | .pass time =>
    ∀ shutdown ∈ process.shutdowns, process.now + time ≤ shutdown.startedAt + plan.timeout
  | _ => True

theorem Plan.Sound.step (h : plan.Sound process) {action : Action Resource}
    (hstep : plan.step process action = some after) : plan.Sound after := by
  obtain ⟨hexit, hact⟩ := Option.ite_none_right_eq_some.mp hstep
  cases action with
  | arrive resource =>
    obtain ⟨hopen, hsame⟩ := Option.ite_none_left_eq_some.mp hact
    obtain rfl := Option.some.inj hsame
    refine h.work hexit fun shutdown hshutdown other hdrain hzero ↦ ?_
    have hne : other ≠ resource := by
      rintro rfl
      exact hopen ⟨shutdown, hshutdown, List.take_subset_take_left _ (Nat.le_succ _) hdrain⟩
    rw [Function.update_of_ne hne, hzero]
  | finish resource =>
    obtain ⟨-, hsame⟩ := Option.ite_none_left_eq_some.mp hact
    obtain rfl := Option.some.inj hsame
    refine h.work hexit fun shutdown hshutdown other hdrain hzero ↦ ?_
    by_cases hsame : other = resource
    · rw [hsame, Function.update_self, ← hsame, hzero]
    · rw [Function.update_of_ne hsame, hzero]
  | signal =>
    obtain rfl := Option.some.inj hact
    exact h.signal hexit
  | resolve index =>
    obtain ⟨shutdown, hindex, hrest⟩ := Option.bind_eq_some_iff.mp hact
    obtain ⟨stage, hstage, hlast⟩ := Option.bind_eq_some_iff.mp hrest
    obtain ⟨hwaits, hsame⟩ := Option.ite_none_left_eq_some.mp hlast
    obtain rfl := Option.some.inj hsame
    exact h.goOn hindex hstage hwaits
  | reject index =>
    obtain ⟨shutdown, hindex, hrest⟩ := Option.bind_eq_some_iff.mp hact
    obtain ⟨stage, hstage, hlast⟩ := Option.bind_eq_some_iff.mp hrest
    obtain ⟨hfails, hsame⟩ := Option.ite_none_right_eq_some.mp hlast
    obtain rfl := Option.some.inj hsame
    refine ⟨h.drained, h.started, h.first, fun exit hmem ↦ ?_⟩
    obtain rfl := Option.some.inj hmem
    exact ⟨shutdown, hindex, stage, hstage, hfails⟩
  | fire index =>
    obtain ⟨shutdown, hindex, hlast⟩ := Option.bind_eq_some_iff.mp hact
    obtain ⟨hdue, hsame⟩ := Option.ite_none_right_eq_some.mp hlast
    obtain rfl := Option.some.inj hsame
    refine ⟨h.drained, h.started, h.first, fun exit hmem ↦ ?_⟩
    obtain rfl := Option.some.inj hmem
    exact ⟨shutdown, hindex, hdue⟩
  | pass time =>
    obtain rfl := Option.some.inj hact
    refine ⟨h.drained, fun shutdown hshutdown ↦ ?_, h.first, fun exit hmem ↦ ?_⟩
    · exact Nat.le_add_right_of_le (h.started shutdown hshutdown)
    · rw [hexit] at hmem
      cases hmem

theorem Plan.sound_run {actions : List (Action Resource)}
    (hrun : plan.system.run actions = some process) : plan.Sound process := by
  refine System.run_induction (motive := fun _ process ↦ plan.Sound process) ?_ ?_ hrun
  · have hnone : ∀ shutdown : Shutdown, shutdown ∉ ([] : List Shutdown) := fun _ ↦ List.not_mem_nil
    exact ⟨fun shutdown h ↦ absurd h (hnone shutdown), fun shutdown h ↦ absurd h (hnone shutdown),
      fun shutdown h ↦ absurd h (hnone shutdown), fun exit h ↦ by cases h⟩
  · exact fun _ before action next _ h hstep ↦ h.step hstep

/-! ### Exits -/

/-- What is in flight when the process has exited. A shutdown that came to its end has drained
everything, one that failed what its stages before had to drain. Otherwise a timer has run out since
the first signal. -/
theorem Plan.drained_run {actions : List (Action Resource)}
    (hrun : plan.system.run actions = some process) {exit : Exit}
    (hexit : process.exit = some exit) :
    ∃ shutdown, process.shutdowns[exit.index]? = some shutdown ∧
      ∃ signalled ∈ process.signalledAt,
        match exit.ending with
        | .completed => ∀ resource, .drain resource ∈ plan.stages → process.inFlight resource = 0
        | .failed => ∃ stage, plan.stages[shutdown.passed]? = some stage ∧
            plan.mayFail stage = true ∧ ∀ resource,
              .drain resource ∈ plan.stages.take shutdown.passed → process.inFlight resource = 0
        | .timedOut => signalled + plan.timeout ≤ process.now := by
  have h := plan.sound_run hrun
  obtain ⟨shutdown, hindex, haccounts⟩ := h.exit exit hexit
  have hmem : shutdown ∈ process.shutdowns := List.mem_of_getElem? hindex
  obtain ⟨signalled, hsignalled, hle⟩ := h.first shutdown hmem
  refine ⟨shutdown, hindex, signalled, hsignalled, ?_⟩
  match hending : exit.ending with
  | .completed =>
    rw [hending] at haccounts
    intro resource hdrain
    refine h.drained shutdown hmem resource ?_
    rw [haccounts, List.take_length]
    exact hdrain
  | .failed =>
    rw [hending] at haccounts
    obtain ⟨stage, hstage, hfails⟩ := haccounts
    exact ⟨stage, hstage, hfails, h.drained shutdown hmem⟩
  | .timedOut =>
    rw [hending] at haccounts
    exact Nat.le_trans (Nat.add_le_add_right hle _) haccounts

/-- Assumes: timers that run out in time. A process does not live longer than its timeout after the
first signal. -/
theorem Plan.now_le_of_punctual {actions : List (Action Resource)}
    (hrun : plan.system.run actions = some process)
    (hpunctual : plan.system.Meets plan.Punctual actions) {signalled : ℕ}
    (hsignalled : signalled ∈ process.signalledAt) : process.now ≤ signalled + plan.timeout := by
  have hall : plan.Sound process ∧ ∀ shutdown ∈ process.shutdowns,
      process.now ≤ shutdown.startedAt + plan.timeout := by
    refine System.run_induction_of_meets (motive := fun process ↦ plan.Sound process ∧
      ∀ shutdown ∈ process.shutdowns, process.now ≤ shutdown.startedAt + plan.timeout)
      ⟨plan.sound_run (System.run_nil _), fun _ hmem ↦ absurd hmem List.not_mem_nil⟩ ?_ hrun
      hpunctual
    rintro before action next ⟨hsound, hbefore⟩ hallowed hstep
    refine ⟨hsound.step hstep, ?_⟩
    obtain ⟨-, hact⟩ := Option.ite_none_right_eq_some.mp hstep
    cases action with
    | arrive resource =>
      obtain ⟨-, hsame⟩ := Option.ite_none_left_eq_some.mp hact
      obtain rfl := Option.some.inj hsame
      exact hbefore
    | finish resource =>
      obtain ⟨-, hsame⟩ := Option.ite_none_left_eq_some.mp hact
      obtain rfl := Option.some.inj hsame
      exact hbefore
    | signal =>
      obtain rfl := Option.some.inj hact
      intro shutdown hshutdown
      rcases List.mem_append.mp hshutdown with hold | hnew
      · exact hbefore shutdown hold
      · obtain rfl := List.mem_singleton.mp hnew
        exact Nat.le_add_right _ _
    | resolve index =>
      obtain ⟨shutdown, hindex, hrest⟩ := Option.bind_eq_some_iff.mp hact
      obtain ⟨stage, -, hlast⟩ := Option.bind_eq_some_iff.mp hrest
      obtain ⟨-, hsame⟩ := Option.ite_none_left_eq_some.mp hlast
      obtain rfl := Option.some.inj hsame
      intro other hother
      rcases List.mem_or_eq_of_mem_set hother with hold | rfl
      · exact hbefore other hold
      · exact hbefore shutdown (List.mem_of_getElem? hindex)
    | reject index =>
      obtain ⟨shutdown, -, hrest⟩ := Option.bind_eq_some_iff.mp hact
      obtain ⟨stage, -, hlast⟩ := Option.bind_eq_some_iff.mp hrest
      obtain ⟨-, hsame⟩ := Option.ite_none_right_eq_some.mp hlast
      obtain rfl := Option.some.inj hsame
      exact hbefore
    | fire index =>
      obtain ⟨shutdown, -, hlast⟩ := Option.bind_eq_some_iff.mp hact
      obtain ⟨-, hsame⟩ := Option.ite_none_right_eq_some.mp hlast
      obtain rfl := Option.some.inj hsame
      exact hbefore
    | pass time =>
      obtain rfl := Option.some.inj hact
      exact hallowed
  obtain ⟨first, hfirst, rfl⟩ := Option.map_eq_some_iff.mp hsignalled
  exact hall.2 first (List.mem_of_mem_head? hfirst)

/-- Then the first timer ends a process that is still there. -/
theorem Plan.fire_of_due (hexit : process.exit = none) {signalled : ℕ}
    (hsignalled : signalled ∈ process.signalledAt) (hdue : signalled + plan.timeout ≤ process.now) :
    plan.step process (.fire 0) = some { process with exit := some ⟨.timedOut, 0⟩ } := by
  obtain ⟨first, hfirst, rfl⟩ := Option.map_eq_some_iff.mp hsignalled
  have hzero : process.shutdowns[0]? = some first := by
    rw [← List.head?_eq_getElem?]
    exact hfirst
  rw [Plan.step, if_pos hexit]
  show (process.shutdowns[0]?.bind _) = _
  rw [hzero, Option.bind_some, if_pos hdue]

end FileForge.Foundation.Draining
