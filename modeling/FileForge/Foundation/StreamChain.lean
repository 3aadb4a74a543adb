import FileForge.Foundation.Execution
import Mathlib.Data.List.TakeWhile
import Mathlib.Logic.Function.Basic

/-!
# A chain of streams and the promise at its end

Stages that hand their data on, each to the next, and somebody who awaits the end. The first stages
are joined by `pipe` alone, the others belong to the party that is awaited (`Layout`): one call of
`pipeline`, a loop over the last stage, or a consumer that listens to it. What flows is left out; a
stage comes to its end after the stage before it, and it may fail at any moment until then.

Some stages at the front may have been opened before the others are joined to them, and a stage that
has been opened may fail while nobody listens to it yet. Once the chain is joined, `pipe` forwards
data and the end, never an error: the failure of a stage that is only piped is heard by nobody, and
it neither settles the promise nor ends the stages behind it. A failure within the awaited part
rejects the promise and destroys the rest of that part.

`Account` is the invariant of a run: what was left unhandled is what stages failed with before the
chain was joined and what the piped stages failed with, the promise is rejected by the first failure
of the others, and it resolves after every stage has ended. From it, a run with failures rejects and
leaves nothing unhandled exactly when no stage failed before and no piped stage after
(`rejects_iff`).
-/

set_option autoImplicit false
set_option relaxedAutoImplicit false

namespace FileForge.Foundation.StreamChain

open Execution

/-- The number of stages, how many at the front are joined by `pipe` alone, and how many are opened
before they are joined. -/
structure Layout where
  length : ℕ
  piped : ℕ
  opened : ℕ
  piped_lt : piped < length

inductive Status
  | flowing
  | ended
  | failed
  | destroyed
  deriving DecidableEq

variable {ε : Type*}

structure State (ε : Type*) where
  joined : Bool
  status : ℕ → Status
  promise : Option (Except ε Unit)
  unhandled : List ε

inductive Action (ε : Type*)
  /-- The stages are joined, and those of the awaited part are listened to. -/
  | join
  /-- A stage comes to its end. -/
  | finish (stage : ℕ)
  | fail (stage : ℕ) (error : ε)
  /-- The awaited part has ended. -/
  | resolve

namespace Layout

/-- The failure of a stage is heard. -/
def Hears (layout : Layout) (state : State ε) (stage : ℕ) : Prop :=
  state.joined = true ∧ layout.piped ≤ stage

instance (layout : Layout) (state : State ε) (stage : ℕ) : Decidable (layout.Hears state stage) :=
  inferInstanceAs (Decidable (_ ∧ _))

/-- The statuses after a failure: one that is heard destroys what still flows of the awaited part. -/
def statusAfter (layout : Layout) (state : State ε) (failed stage : ℕ) : Status :=
  if stage = failed then .failed
  else if layout.Hears state failed ∧ layout.piped ≤ stage ∧ state.status stage = .flowing then
    .destroyed
  else state.status stage

/-- One step. A failure that is not heard is an `error` event without a listener. -/
def step (layout : Layout) (state : State ε) : Action ε → Option (State ε)
  | .join => if state.joined = true then none else some { state with joined := true }
  | .finish stage =>
    if state.joined = true ∧ stage < layout.length ∧ state.status stage = .flowing ∧
        (stage = 0 ∨ state.status (stage - 1) = .ended) then
      some { state with status := Function.update state.status stage .ended }
    else none
  | .fail stage error =>
    if stage < layout.length ∧ state.status stage = .flowing ∧
        (state.joined = true ∨ stage < layout.opened) then
      if layout.Hears state stage then
        some { state with
          status := layout.statusAfter state stage
          promise := state.promise.or (some (.error error)) }
      else
        some { state with
          status := layout.statusAfter state stage
          unhandled := state.unhandled ++ [error] }
    else none
  | .resolve =>
    if state.joined = true ∧ state.promise.isNone ∧ ∀ stage < layout.length, layout.piped ≤ stage →
        state.status stage = .ended then
      some { state with promise := some (.ok ()) }
    else none

/-- The chain from its start. -/
def system (layout : Layout) : System (State ε) (Action ε) where
  start := { joined := false, status := fun _ ↦ .flowing, promise := none, unhandled := [] }
  step := layout.step

/-! ### What a step can do -/

theorem step_join {layout : Layout} {state after : State ε}
    (h : layout.step state .join = some after) :
    state.joined = false ∧ after = { state with joined := true } := by
  simp only [step] at h
  split_ifs at h with hjoined
  exact ⟨by simpa using hjoined, (Option.some.inj h).symm⟩

theorem step_finish {layout : Layout} {state after : State ε} {stage : ℕ}
    (h : layout.step state (.finish stage) = some after) :
    state.joined = true ∧ state.status stage = .flowing ∧
      (stage = 0 ∨ state.status (stage - 1) = .ended) ∧
      after = { state with status := Function.update state.status stage .ended } := by
  simp only [step] at h
  split_ifs at h with hguard
  exact ⟨hguard.1, hguard.2.2.1, hguard.2.2.2, (Option.some.inj h).symm⟩

theorem step_fail {layout : Layout} {state after : State ε} {stage : ℕ} {error : ε}
    (h : layout.step state (.fail stage error) = some after) :
    state.status stage = .flowing ∧ stage < layout.length ∧
      (state.joined = true ∨ stage < layout.opened) ∧ after.joined = state.joined ∧
      after.status = layout.statusAfter state stage ∧
      ((layout.Hears state stage ∧ after.promise = state.promise.or (some (.error error)) ∧
          after.unhandled = state.unhandled) ∨
        (¬ layout.Hears state stage ∧ after.promise = state.promise ∧
          after.unhandled = state.unhandled ++ [error])) := by
  simp only [step] at h
  split_ifs at h with hguard hhears
  · obtain rfl := Option.some.inj h
    exact ⟨hguard.2.1, hguard.1, hguard.2.2, rfl, rfl, Or.inl ⟨hhears, rfl, rfl⟩⟩
  · obtain rfl := Option.some.inj h
    exact ⟨hguard.2.1, hguard.1, hguard.2.2, rfl, rfl, Or.inr ⟨hhears, rfl, rfl⟩⟩

theorem step_resolve {layout : Layout} {state after : State ε}
    (h : layout.step state .resolve = some after) :
    state.joined = true ∧ state.promise = none ∧
      (∀ stage < layout.length, layout.piped ≤ stage → state.status stage = .ended) ∧
      after = { state with promise := some (.ok ()) } := by
  simp only [step] at h
  split_ifs at h with hguard
  exact ⟨hguard.1, Option.isNone_iff_eq_none.mp hguard.2.1, hguard.2.2, (Option.some.inj h).symm⟩

/-! ### The invariant -/

/-- The failures of a run, in order. -/
def failures (actions : List (Action ε)) : List (ℕ × ε) :=
  actions.filterMap fun
    | .fail stage error => some (stage, error)
    | _ => none

def isJoin : Action ε → Bool
  | .join => true
  | _ => false

/-- The steps before the chain is joined, and those from then on. -/
def beforeJoin (actions : List (Action ε)) : List (Action ε) :=
  actions.takeWhile fun action ↦ !isJoin action

def fromJoin (actions : List (Action ε)) : List (Action ε) :=
  actions.dropWhile fun action ↦ !isJoin action

/-- The failures that nobody hears. -/
def unheard (layout : Layout) (actions : List (Action ε)) : List (ℕ × ε) :=
  failures (beforeJoin actions) ++
    (failures (fromJoin actions)).filter fun failure ↦ failure.1 < layout.piped

/-- What holds of a run and the state that it has reached. -/
structure Account (layout : Layout) (actions : List (Action ε)) (state : State ε) : Prop where
  joined : state.joined = actions.any isJoin
  unhandled : state.unhandled = (unheard layout actions).map Prod.snd
  /-- What fails before the chain is joined has been opened. -/
  early : ∀ failure ∈ failures (beforeJoin actions), failure.1 < layout.opened
  failed : ∀ failure ∈ failures actions, state.status failure.1 = .failed ∧
    failure.1 < layout.length
  /-- Stages end from the front. -/
  ended : ∀ stage, state.status (stage + 1) = .ended → state.status stage = .ended
  resolved : state.promise = some (.ok ()) → ∀ stage < layout.length, state.status stage = .ended
  rejected : ∀ error, state.promise = some (.error error) →
    ∃ stage, (stage, error) ∈ failures actions ∧ layout.piped ≤ stage
  rejects : ∀ failure ∈ failures (fromJoin actions), layout.piped ≤ failure.1 →
    ∃ error, state.promise = some (.error error)

/-! ### One action -/

theorem statusAfter_self (layout : Layout) (state : State ε) (stage : ℕ) :
    layout.statusAfter state stage stage = .failed := if_pos rfl

theorem statusAfter_failed {layout : Layout} {state : State ε} {failed stage : ℕ}
    (h : state.status stage = .failed) : layout.statusAfter state failed stage = .failed := by
  simp [statusAfter, h]

theorem statusAfter_eq_ended_iff {layout : Layout} {state : State ε} {failed stage : ℕ}
    (hfailed : state.status failed = .flowing) :
    layout.statusAfter state failed stage = .ended ↔ state.status stage = .ended := by
  unfold statusAfter
  split_ifs with hself hdestroyed
  · simp [hself, hfailed]
  · simp [hdestroyed.2.2]
  · rfl

theorem failures_append (actions later : List (Action ε)) :
    failures (actions ++ later) = failures actions ++ failures later :=
  List.filterMap_append

/-- The failures of a run are those before the chain is joined and those from then on. -/
theorem failures_beforeJoin_append (actions : List (Action ε)) :
    failures (beforeJoin actions) ++ failures (fromJoin actions) = failures actions := by
  rw [← failures_append, beforeJoin, fromJoin, List.takeWhile_append_dropWhile]

section Concat

variable {actions : List (Action ε)} {action : Action ε}

theorem split_of_joined (hjoined : actions.any isJoin = true) :
    beforeJoin (actions ++ [action]) = beforeJoin actions ∧
      fromJoin (actions ++ [action]) = fromJoin actions ++ [action] := by
  rw [List.any_eq_true] at hjoined
  obtain ⟨joining, hmem, hjoin⟩ := hjoined
  have hstops : ¬ ∀ other ∈ actions, (!isJoin other) = true := fun hall ↦ by
    simpa [hjoin] using hall joining hmem
  constructor
  · rw [beforeJoin, beforeJoin, List.takeWhile_append, if_neg]
    intro hlength
    exact hstops (List.takeWhile_eq_self_iff.mp
      ((List.takeWhile_prefix _).eq_of_length hlength))
  · rw [fromJoin, fromJoin, List.dropWhile_append, if_neg]
    simpa [List.isEmpty_iff, List.dropWhile_eq_nil_iff] using hstops

/-- Assumes: the chain is not joined, and this action does not join it. -/
theorem split_of_not_joined (hjoined : actions.any isJoin = false)
    (haction : isJoin action = false) :
    beforeJoin (actions ++ [action]) = actions ++ [action] ∧
      fromJoin (actions ++ [action]) = [] := by
  have hall : ∀ other ∈ actions ++ [action], (!isJoin other) = true := by
    intro other hother
    rcases List.mem_append.mp hother with hmem | hmem
    · rw [List.any_eq_false] at hjoined
      simpa using hjoined other hmem
    · rw [List.mem_singleton.mp hmem, haction]
      rfl
  exact ⟨List.takeWhile_eq_self_iff.mpr hall, List.dropWhile_eq_nil_iff.mpr hall⟩

theorem whole_of_not_joined (hjoined : actions.any isJoin = false) :
    beforeJoin actions = actions ∧ fromJoin actions = [] := by
  have hall : ∀ other ∈ actions, (!isJoin other) = true := fun other hother ↦ by
    rw [List.any_eq_false] at hjoined
    simpa using hjoined other hother
  exact ⟨List.takeWhile_eq_self_iff.mpr hall, List.dropWhile_eq_nil_iff.mpr hall⟩

/-- An action without a failure changes no failures. -/
theorem failures_concat_of_silent (hsilent : failures [action] = []) :
    failures (actions ++ [action]) = failures actions ∧
      failures (beforeJoin (actions ++ [action])) = failures (beforeJoin actions) ∧
      failures (fromJoin (actions ++ [action])) = failures (fromJoin actions) := by
  refine ⟨by rw [failures_append, hsilent, List.append_nil], ?_⟩
  by_cases hjoined : actions.any isJoin = true
  · obtain ⟨hbefore, hfrom⟩ := @split_of_joined _ _ action hjoined
    rw [hbefore, hfrom, failures_append, hsilent, List.append_nil]
    exact ⟨rfl, rfl⟩
  · rw [Bool.not_eq_true] at hjoined
    obtain ⟨hwhole, hnone⟩ := whole_of_not_joined hjoined
    by_cases haction : isJoin action = true
    · -- the action joins the chain
      have hall : ∀ other ∈ actions, (!isJoin other) = true := List.takeWhile_eq_self_iff.mp hwhole
      have hbefore : beforeJoin (actions ++ [action]) = actions := by
        rw [beforeJoin, List.takeWhile_append_of_pos hall, List.takeWhile_cons_of_neg (by simpa),
          List.append_nil]
      have hfrom : fromJoin (actions ++ [action]) = [action] := by
        rw [fromJoin, List.dropWhile_append_of_pos hall, List.dropWhile_cons_of_neg (by simpa)]
      rw [hbefore, hfrom, hwhole, hnone, hsilent]
      exact ⟨rfl, rfl⟩
    · obtain ⟨hbefore, hfrom⟩ := split_of_not_joined hjoined (by simpa using haction)
      rw [hbefore, hfrom, hwhole, hnone, failures_append, hsilent, List.append_nil]
      exact ⟨rfl, rfl⟩

/-- A failure comes before the chain is joined or after. -/
theorem failures_concat_of_fail (actions : List (Action ε)) (stage : ℕ) (error : ε) :
    failures (actions ++ [.fail stage error]) = failures actions ++ [(stage, error)] ∧
      failures (beforeJoin (actions ++ [.fail stage error])) =
        failures (beforeJoin actions) ++
          (if actions.any isJoin then [] else [(stage, error)]) ∧
      failures (fromJoin (actions ++ [.fail stage error])) =
        failures (fromJoin actions) ++
          (if actions.any isJoin then [(stage, error)] else []) := by
  refine ⟨failures_append _ _, ?_⟩
  by_cases hjoined : actions.any isJoin = true
  · obtain ⟨hbefore, hfrom⟩ := @split_of_joined _ _ (.fail stage error) hjoined
    rw [hbefore, hfrom, failures_append, if_pos hjoined, if_pos hjoined, List.append_nil]
    exact ⟨rfl, rfl⟩
  · rw [if_neg hjoined, if_neg hjoined]
    rw [Bool.not_eq_true] at hjoined
    obtain ⟨hwhole, hnone⟩ := whole_of_not_joined hjoined
    obtain ⟨hbefore, hfrom⟩ := @split_of_not_joined _ _ (.fail stage error) hjoined rfl
    rw [hbefore, hfrom, hwhole, hnone, failures_append]
    exact ⟨rfl, rfl⟩

end Concat

theorem account_start (layout : Layout) :
    Account layout ([] : List (Action ε)) layout.system.start where
  joined := rfl
  unhandled := rfl
  early _ h := absurd h List.not_mem_nil
  failed _ h := absurd h List.not_mem_nil
  ended _ h := absurd h (by simp [system])
  resolved h := absurd h (by simp [system])
  rejected _ h := absurd h (by simp [system])
  rejects _ h := absurd h List.not_mem_nil

section Step

variable {layout : Layout} {actions : List (Action ε)} {state after : State ε}
  (haccount : Account layout actions state)

include haccount

/-- An action without a failure, by what it does to the statuses and the promise. -/
theorem Account.of_silent {action : Action ε} (hsilent : failures [action] = [])
    (hjoined : after.joined = (state.joined || isJoin action))
    (hunhandled : after.unhandled = state.unhandled)
    (hfailed : ∀ stage, state.status stage = .failed → after.status stage = .failed)
    (hended : ∀ stage, after.status (stage + 1) = .ended → after.status stage = .ended)
    (hresolved : after.promise = some (.ok ()) →
      ∀ stage < layout.length, after.status stage = .ended)
    (hrejected : ∀ error, after.promise = some (.error error) ↔
      state.promise = some (.error error)) :
    Account layout (actions ++ [action]) after := by
  obtain ⟨hall, hbefore, hfrom⟩ := @failures_concat_of_silent _ actions action hsilent
  constructor
  case joined =>
    rw [hjoined, haccount.joined, List.any_append]
    simp
  case unhandled => rw [hunhandled, haccount.unhandled, unheard, unheard, hbefore, hfrom]
  case early => rw [hbefore]; exact haccount.early
  case failed =>
    rw [hall]
    exact fun failure hmem ↦ ⟨hfailed _ (haccount.failed failure hmem).1,
      (haccount.failed failure hmem).2⟩
  case ended => exact hended
  case resolved => exact hresolved
  case rejected =>
    rw [hall]
    exact fun error hpromise ↦ haccount.rejected error ((hrejected error).mp hpromise)
  case rejects =>
    rw [hfrom]
    intro failure hmem hpiped
    obtain ⟨error, herror⟩ := haccount.rejects failure hmem hpiped
    exact ⟨error, (hrejected error).mpr herror⟩

theorem Account.join (h : layout.step state .join = some after) :
    Account layout (actions ++ [.join]) after := by
  obtain ⟨-, rfl⟩ := step_join h
  exact haccount.of_silent rfl (by simp [isJoin]) rfl (fun _ ↦ id) haccount.ended
    haccount.resolved fun _ ↦ Iff.rfl

theorem Account.finish {stage : ℕ} (h : layout.step state (.finish stage) = some after) :
    Account layout (actions ++ [.finish stage]) after := by
  obtain ⟨-, hflowing, hbefore, rfl⟩ := step_finish h
  have hkeeps (other : ℕ) (hother : state.status other ≠ .flowing) :
      Function.update state.status stage .ended other = state.status other :=
    Function.update_of_ne (by rintro rfl; exact hother hflowing) _ _
  refine haccount.of_silent rfl (by simp [isJoin]) rfl ?_ ?_ ?_ fun _ ↦ Iff.rfl
  · exact fun other hfailed ↦ (hkeeps other (by simp [hfailed])).trans hfailed
  · intro other (hended : Function.update state.status stage .ended (other + 1) = .ended)
    by_cases hother : other + 1 = stage
    · subst hother
      have hprevious : state.status other = .ended := by simpa using hbefore
      exact (hkeeps other (by simp [hprevious])).trans hprevious
    · rw [Function.update_of_ne hother] at hended
      have hprevious := haccount.ended other hended
      exact (hkeeps other (by simp [hprevious])).trans hprevious
  · intro hpromise other hother
    have hended := haccount.resolved hpromise other hother
    exact (hkeeps other (by simp [hended])).trans hended

theorem Account.fail {stage : ℕ} {error : ε}
    (h : layout.step state (.fail stage error) = some after) :
    Account layout (actions ++ [.fail stage error]) after := by
  obtain ⟨hflowing, hlength, hopened, hjoined, hstatus, hcases⟩ := step_fail h
  obtain ⟨hall, hbefore, hfrom⟩ := failures_concat_of_fail actions stage error
  have hjoins := haccount.joined
  have hmem : (stage, error) ∈ failures actions ++ [(stage, error)] := by simp
  constructor
  case joined =>
    rw [hjoined, hjoins, List.any_append]
    simp [isJoin]
  case unhandled =>
    rw [unheard, hbefore, hfrom]
    rcases hcases with ⟨⟨hnow, hpiped⟩, -, hunhandled⟩ | ⟨hdeaf, -, hunhandled⟩
    · rw [← hjoins, if_pos hnow, if_pos hnow, hunhandled, haccount.unhandled, unheard]
      simp [Nat.not_lt.mpr hpiped]
    · rw [hunhandled, haccount.unhandled, unheard, ← hjoins]
      by_cases hnow : state.joined = true
      · have hpiped : stage < layout.piped := Nat.lt_of_not_le fun hle ↦ hdeaf ⟨hnow, hle⟩
        simp [hnow, hpiped]
      · -- no stage has failed after the chain was joined, for it is not
        rw [hjoins, Bool.not_eq_true] at hnow
        obtain ⟨-, hnone⟩ := whole_of_not_joined hnow
        simp [hjoins, hnow, hnone, failures]
  case early =>
    rw [hbefore, ← hjoins]
    intro failure hfailure
    rcases List.mem_append.mp hfailure with hearlier | hnew
    · exact haccount.early failure hearlier
    · split_ifs at hnew with hnow
      · cases hnew
      · rw [List.mem_singleton.mp hnew]
        exact hopened.resolve_left hnow
  case failed =>
    intro failure hfailure
    rw [hall, List.mem_append, List.mem_singleton] at hfailure
    rcases hfailure with hearlier | rfl
    · obtain ⟨hfailed, hshort⟩ := haccount.failed failure hearlier
      exact ⟨hstatus ▸ statusAfter_failed hfailed, hshort⟩
    · exact ⟨hstatus ▸ statusAfter_self layout state stage, hlength⟩
  case ended =>
    intro other hended
    rw [hstatus, statusAfter_eq_ended_iff hflowing] at hended ⊢
    exact haccount.ended other hended
  case resolved =>
    intro hpromise other hother
    have hearlier : state.promise = some (.ok ()) := by
      rcases hcases with ⟨-, hafter, -⟩ | ⟨-, hafter, -⟩
      · rw [hafter, Option.or_eq_some_iff] at hpromise
        simpa using hpromise
      · exact hafter ▸ hpromise
    rw [hstatus, statusAfter_eq_ended_iff hflowing]
    exact haccount.resolved hearlier other hother
  case rejected =>
    intro found hpromise
    rw [hall]
    rcases hcases with ⟨⟨-, hpiped⟩, hafter, -⟩ | ⟨-, hafter, -⟩
    · rw [hafter, Option.or_eq_some_iff] at hpromise
      rcases hpromise with hearlier | ⟨-, hnow⟩
      · obtain ⟨first, hfirst, hfirstPiped⟩ := haccount.rejected found hearlier
        exact ⟨first, List.mem_append_left _ hfirst, hfirstPiped⟩
      · obtain rfl : error = found := by simpa using hnow
        exact ⟨stage, hmem, hpiped⟩
    · obtain ⟨first, hfirst, hfirstPiped⟩ := haccount.rejected found (hafter ▸ hpromise)
      exact ⟨first, List.mem_append_left _ hfirst, hfirstPiped⟩
  case rejects =>
    intro failure hfailure hfailurePiped
    rw [hfrom, ← hjoins, List.mem_append] at hfailure
    rcases hcases with ⟨-, hafter, -⟩ | ⟨hdeaf, hafter, -⟩
    · cases hpromise : state.promise with
      | none => exact ⟨error, by rw [hafter, hpromise]; rfl⟩
      | some settled =>
        cases settled with
        | error first => exact ⟨first, by rw [hafter, hpromise]; rfl⟩
        | ok value =>
          have hended := haccount.resolved hpromise stage hlength
          exact absurd (hflowing.symm.trans hended) (by simp)
    · rcases hfailure with hearlier | hnew
      · rw [hafter]
        exact haccount.rejects failure hearlier hfailurePiped
      · split_ifs at hnew with hnow
        · rw [List.mem_singleton.mp hnew] at hfailurePiped
          exact absurd ⟨hnow, hfailurePiped⟩ hdeaf
        · cases hnew

/-- The last stage is in the awaited part, and what ended last ended after all the others. -/
theorem Account.ended_all (hlast : state.status (layout.length - 1) = .ended) :
    ∀ stage < layout.length, state.status stage = .ended := by
  have hdown (steps stage : ℕ) (hsteps : stage + steps = layout.length - 1) :
      state.status stage = .ended := by
    induction steps generalizing stage with
    | zero => exact (show stage = _ from hsteps) ▸ hlast
    | succ steps ih => exact haccount.ended stage (ih (stage + 1) (by omega))
  intro stage hstage
  exact hdown (layout.length - 1 - stage) stage (by omega)

theorem Account.resolve (h : layout.step state .resolve = some after) :
    Account layout (actions ++ [.resolve]) after := by
  obtain ⟨-, hopen, hawaited, rfl⟩ := step_resolve h
  have hpiped := layout.piped_lt
  have hall := haccount.ended_all (hawaited (layout.length - 1) (by omega) (by omega))
  refine haccount.of_silent rfl (by simp [isJoin]) rfl (fun _ ↦ id) haccount.ended
    (fun _ ↦ hall) fun error ↦ ?_
  simp [hopen]

end Step

theorem account_run {layout : Layout} {actions : List (Action ε)} {state : State ε}
    (hrun : layout.system.run actions = some state) : Account layout actions state := by
  refine System.run_induction (motive := fun actions state ↦ Account layout actions state)
    (account_start layout) ?_ hrun
  intro actions state action after _ haccount hstep
  cases action with
  | join => exact haccount.join hstep
  | finish stage => exact haccount.finish hstep
  | fail stage error => exact haccount.fail hstep
  | resolve => exact haccount.resolve hstep

/-! ### Runs with failures -/

section Run

variable {layout : Layout} {actions : List (Action ε)} {state : State ε}
  (hrun : layout.system.run actions = some state)

include hrun

/-- What fails before the chain is joined is one of the stages that have been opened. -/
theorem opened_of_early {failure : ℕ × ε} (hmem : failure ∈ failures (beforeJoin actions)) :
    failure.1 < layout.opened :=
  (account_run hrun).early failure hmem

/-- Nothing is left unhandled when no stage failed before the chain was joined, and only stages of
the awaited part did. -/
theorem unhandled_eq_nil_iff :
    state.unhandled = [] ↔ failures (beforeJoin actions) = [] ∧
      ∀ failure ∈ failures actions, layout.piped ≤ failure.1 := by
  rw [(account_run hrun).unhandled, List.map_eq_nil_iff, unheard, List.append_eq_nil_iff]
  refine and_congr_right fun hearly ↦ ?_
  rw [← failures_beforeJoin_append actions, hearly, List.nil_append, List.filter_eq_nil_iff]
  simp

/-- Assumes: some stage failed. The promise is rejected, with nothing left unhandled, exactly when
no stage failed before the chain was joined, and no piped one after. -/
theorem rejects_iff (hfails : failures actions ≠ []) :
    ((∃ error, state.promise = some (.error error)) ∧ state.unhandled = []) ↔
      failures (beforeJoin actions) = [] ∧
        ∀ failure ∈ failures actions, layout.piped ≤ failure.1 := by
  rw [unhandled_eq_nil_iff hrun]
  constructor
  · exact And.right
  · rintro ⟨hearly, hawaited⟩
    obtain ⟨failure, hfailure⟩ := List.exists_mem_of_ne_nil _ hfails
    have hlater : failure ∈ failures (fromJoin actions) := by
      rwa [← failures_beforeJoin_append actions, hearly, List.nil_append] at hfailure
    exact ⟨(account_run hrun).rejects failure hlater (hawaited failure hfailure), hearly, hawaited⟩

end Run

end Layout

end FileForge.Foundation.StreamChain
