import Mathlib.Data.List.Induction
import Mathlib.Data.Nat.Notation
import Mathlib.Tactic.Common

/-!
# Runs of a system, one action after the other

Several parties that take steps in any order are one system: a state for all of them and a partial
step for each action of each party, `none` where the action is not possible. A run is the list of
the actions taken, so that a statement about every interleaving is a statement about every list.

`run_induction` is the invariant rule; its motive sees the actions as well as the state, so that an
invariant may speak of the past. `Meets` says that every step of a run was taken in a state that
allowed it, and `run_induction_of_meets` is the invariant rule under such a guard; the guard of
`Respects` sees the past as well. `iff_meets` and `always_iff_meets` are the rules for a guard that
is exact: a property holds at the end, or all along, when every step was allowed and never else.
`Precedes` orders two actions of a run.
-/

set_option autoImplicit false
set_option relaxedAutoImplicit false

namespace FileForge.Foundation.Execution

/-- The state before the first action, and what an action makes of a state. -/
structure System (State Action : Type*) where
  start : State
  step : State → Action → Option State

namespace System

variable {State Action : Type*}

/-- The state after a list of actions, `none` when one of them was not possible. -/
def run (system : System State Action) (actions : List Action) : Option State :=
  actions.foldlM system.step system.start

@[simp] theorem run_nil (system : System State Action) : system.run [] = some system.start := rfl

/-- A run ends with its last step. -/
theorem run_concat_eq_some_iff {system : System State Action} {actions : List Action}
    {action : Action} {after : State} :
    system.run (actions ++ [action]) = some after ↔
      ∃ state, system.run actions = some state ∧ system.step state action = some after := by
  simp [run, List.foldlM_append, Option.bind_eq_some_iff]

/-- The invariant rule. Assumes: the motive holds before the first action, and every step of a run
keeps it. -/
theorem run_induction {system : System State Action} {motive : List Action → State → Prop}
    (hstart : motive [] system.start)
    (hstep : ∀ actions state action after, system.run actions = some state →
      motive actions state → system.step state action = some after →
      motive (actions ++ [action]) after) {actions : List Action} {state : State}
    (hrun : system.run actions = some state) : motive actions state := by
  induction actions using List.reverseRecOn generalizing state with
  | nil =>
    rw [run_nil, Option.some.injEq] at hrun
    exact hrun ▸ hstart
  | append_singleton actions action ih =>
    obtain ⟨before, hbefore, hlast⟩ := run_concat_eq_some_iff.mp hrun
    exact hstep actions before action state hbefore (ih hbefore) hlast

/-! ### Guarded runs -/

/-- Every action of the run was taken after a past, and in a state, that allowed it. -/
def Respects (system : System State Action) (allowed : List Action → State → Action → Prop)
    (actions : List Action) : Prop :=
  ∀ past action future state, actions = past ++ action :: future →
    system.run past = some state → allowed past state action

theorem respects_nil (system : System State Action)
    (allowed : List Action → State → Action → Prop) : system.Respects allowed [] := by
  intro past action future state hactions
  simp at hactions

/-- One more allowed action. -/
theorem Respects.concat {system : System State Action}
    {allowed : List Action → State → Action → Prop} {actions : List Action} {action : Action}
    (h : system.Respects allowed actions)
    (hlast : ∀ state, system.run actions = some state → allowed actions state action) :
    system.Respects allowed (actions ++ [action]) := by
  intro past found future state hactions hrun
  induction future using List.reverseRecOn with
  | nil =>
    obtain ⟨hpast, hfound⟩ := List.append_inj' hactions rfl
    rw [List.singleton_inj] at hfound
    rw [← hpast] at hrun ⊢
    exact hfound ▸ hlast state hrun
  | append_singleton future last _ =>
    rw [← List.cons_append, ← List.append_assoc] at hactions
    obtain ⟨hearlier, -⟩ := List.append_inj' hactions rfl
    exact h past found future state hearlier hrun

/-- A guarded run is a guarded run and an allowed last step. -/
theorem Respects.of_concat {system : System State Action}
    {allowed : List Action → State → Action → Prop} {actions : List Action} {action : Action}
    (h : system.Respects allowed (actions ++ [action])) :
    system.Respects allowed actions ∧
      ∀ state, system.run actions = some state → allowed actions state action := by
  constructor
  · intro past earlier future state hactions hrun
    exact h past earlier (future ++ [action]) state (by rw [hactions]; simp) hrun
  · intro state hrun
    exact h actions action [] state rfl hrun

/-- Assumes: the actions make a run. One more action was allowed, and those before it were. -/
theorem respects_concat_iff {system : System State Action}
    {allowed : List Action → State → Action → Prop} {actions : List Action} {action : Action}
    {state : State} (hrun : system.run actions = some state) :
    system.Respects allowed (actions ++ [action]) ↔
      system.Respects allowed actions ∧ allowed actions state action := by
  constructor
  · intro h
    exact ⟨h.of_concat.1, h.of_concat.2 state hrun⟩
  · rintro ⟨hpast, hlast⟩
    refine hpast.concat fun other hother ↦ ?_
    rw [hrun, Option.some.injEq] at hother
    exact hother ▸ hlast

/-- Every action of the run was taken in a state that allowed it. -/
def Meets (system : System State Action) (allowed : State → Action → Prop)
    (actions : List Action) : Prop :=
  ∀ past action future state, actions = past ++ action :: future →
    system.run past = some state → allowed state action

/-- A guard that does not look at the past. -/
theorem meets_iff_respects {system : System State Action} {allowed : State → Action → Prop}
    {actions : List Action} :
    system.Meets allowed actions ↔ system.Respects (fun _ ↦ allowed) actions := Iff.rfl

/-- Actions that every state allows. -/
theorem meets_of_forall {system : System State Action} {allowed : State → Action → Prop}
    {actions : List Action} (h : ∀ action ∈ actions, ∀ state, allowed state action) :
    system.Meets allowed actions := by
  intro past action future state hactions _
  exact h action (by rw [hactions]; simp) state

theorem Meets.of_concat {system : System State Action} {allowed : State → Action → Prop}
    {actions : List Action} {action : Action} (h : system.Meets allowed (actions ++ [action])) :
    system.Meets allowed actions ∧
      ∀ state, system.run actions = some state → allowed state action :=
  (meets_iff_respects.mp h).of_concat

theorem Meets.concat {system : System State Action} {allowed : State → Action → Prop}
    {actions : List Action} {action : Action} (h : system.Meets allowed actions)
    (hlast : ∀ state, system.run actions = some state → allowed state action) :
    system.Meets allowed (actions ++ [action]) :=
  (meets_iff_respects.mp h).concat hlast

theorem meets_concat_iff {system : System State Action} {allowed : State → Action → Prop}
    {actions : List Action} {action : Action} {state : State}
    (hrun : system.run actions = some state) :
    system.Meets allowed (actions ++ [action]) ↔
      system.Meets allowed actions ∧ allowed state action := by
  rw [meets_iff_respects, respects_concat_iff hrun, meets_iff_respects]

theorem meets_nil (system : System State Action) (allowed : State → Action → Prop) :
    system.Meets allowed [] := respects_nil system _

/-- The invariant rule of guarded runs. Assumes: the motive holds before the first action, and every
allowed step keeps it. -/
theorem run_induction_of_meets {system : System State Action} {allowed : State → Action → Prop}
    {motive : State → Prop} (hstart : motive system.start)
    (hstep : ∀ state action after, motive state → allowed state action →
      system.step state action = some after → motive after) {actions : List Action}
    {state : State} (hrun : system.run actions = some state)
    (hmeets : system.Meets allowed actions) : motive state := by
  have hall : system.Meets allowed actions → motive state := by
    refine run_induction (motive := fun actions state ↦ system.Meets allowed actions →
      motive state) (fun _ ↦ hstart) ?_ hrun
    intro actions state action after hrun ih hlast hmeets
    obtain ⟨hpast, hallowed⟩ := hmeets.of_concat
    exact hstep state action after (ih hpast) (hallowed state hrun) hlast
  exact hall hmeets

/-! ### What holds all along a run -/

/-- The property holds in every state of the run. -/
def Always (system : System State Action) (property : State → Prop) (actions : List Action) :
    Prop :=
  ∀ past future state, actions = past ++ future → system.run past = some state → property state

theorem Always.last {system : System State Action} {property : State → Prop}
    {actions : List Action} (h : system.Always property actions) {state : State}
    (hrun : system.run actions = some state) : property state :=
  h actions [] state (List.append_nil _).symm hrun

theorem always_nil_iff {system : System State Action} {property : State → Prop} :
    system.Always property [] ↔ property system.start := by
  constructor
  · exact fun h ↦ h.last rfl
  · intro h past future state hactions hrun
    obtain ⟨rfl, -⟩ := List.append_eq_nil_iff.mp hactions.symm
    rw [run_nil, Option.some.injEq] at hrun
    exact hrun ▸ h

/-- Assumes: the actions make a run, and so does one more. -/
theorem always_concat_iff {system : System State Action} {property : State → Prop}
    {actions : List Action} {action : Action} {after : State}
    (hrun : system.run (actions ++ [action]) = some after) :
    system.Always property (actions ++ [action]) ↔
      system.Always property actions ∧ property after := by
  constructor
  · intro h
    refine ⟨fun past future state hactions hpast ↦ ?_, h.last hrun⟩
    exact h past (future ++ [action]) state (by rw [hactions, List.append_assoc]) hpast
  · rintro ⟨hbefore, hafter⟩ past future state hactions hpast
    induction future using List.reverseRecOn with
    | nil =>
      rw [List.append_nil] at hactions
      rw [← hactions, hrun, Option.some.injEq] at hpast
      exact hpast ▸ hafter
    | append_singleton future last _ =>
      rw [← List.append_assoc] at hactions
      obtain ⟨hearlier, -⟩ := List.append_inj' hactions rfl
      exact hbefore past future state hearlier hpast

/-- The rule of exact guards. Assumes: the invariant and the property hold at the start, every step
keeps the invariant, and a step from a state with the property keeps it when it is allowed and
never else. -/
theorem always_iff_meets {system : System State Action} (invariant : State → Prop)
    {property : State → Prop} {allowed : State → Action → Prop} (hstart : invariant system.start)
    (hproperty : property system.start)
    (hkeep : ∀ state action after, invariant state → system.step state action = some after →
      invariant after)
    (hexact : ∀ state action after, invariant state → property state →
      system.step state action = some after → (property after ↔ allowed state action))
    {actions : List Action} {state : State} (hrun : system.run actions = some state) :
    system.Always property actions ↔ system.Meets allowed actions := by
  have hall : invariant state ∧
      (system.Always property actions ↔ system.Meets allowed actions) := by
    refine run_induction (motive := fun actions state ↦ invariant state ∧
      (system.Always property actions ↔ system.Meets allowed actions)) ?_ ?_ hrun
    · exact ⟨hstart, iff_of_true (always_nil_iff.mpr hproperty) (meets_nil _ _)⟩
    · rintro actions before action after hbefore ⟨hinvariant, ih⟩ hstep
      refine ⟨hkeep before action after hinvariant hstep, ?_⟩
      rw [always_concat_iff (run_concat_eq_some_iff.mpr ⟨before, hbefore, hstep⟩),
        meets_concat_iff hbefore, ← ih]
      exact and_congr_right fun halways ↦
        hexact before action after hinvariant (halways.last hbefore) hstep
  exact hall.2

/-- The rule of exact guards for a property that no step brings back. -/
theorem iff_meets {system : System State Action} (invariant property : State → Prop)
    {allowed : State → Action → Prop} (hstart : invariant system.start)
    (hproperty : property system.start)
    (hstep : ∀ state action after, invariant state → system.step state action = some after →
      invariant after ∧ (property after ↔ property state ∧ allowed state action))
    {actions : List Action} {state : State} (hrun : system.run actions = some state) :
    invariant state ∧ (property state ↔ system.Meets allowed actions) := by
  refine run_induction (motive := fun actions state ↦ invariant state ∧
    (property state ↔ system.Meets allowed actions)) ?_ ?_ hrun
  · exact ⟨hstart, iff_of_true hproperty (meets_nil _ _)⟩
  · rintro actions before action after hbefore ⟨hinvariant, ih⟩ hlast
    obtain ⟨hafter, hexact⟩ := hstep before action after hinvariant hlast
    rw [meets_concat_iff hbefore, ← ih]
    exact ⟨hafter, hexact⟩

/-! ### The order of two actions -/

/-- An action that is not the last one was taken before. -/
theorem mem_of_mem_concat {actions : List Action} {action last : Action}
    (h : action ∈ actions ++ [last]) (hne : action ≠ last) : action ∈ actions := by
  rcases List.mem_append.mp h with hbefore | hlast
  · exact hbefore
  · exact absurd (List.mem_singleton.mp hlast) hne

/-- An action of the first kind was taken before any of the second. -/
def Precedes (first second : Action → Prop) (actions : List Action) : Prop :=
  ∃ past action future, actions = past ++ action :: future ∧ first action ∧
    ∀ earlier ∈ past, ¬ second earlier

theorem not_precedes_nil (first second : Action → Prop) : ¬ Precedes first second [] := by
  rintro ⟨past, action, future, hactions, -, -⟩
  exact absurd hactions (by simp)

/-- One more action: the order is decided already, or this action decides it. -/
theorem precedes_concat_iff {first second : Action → Prop} {actions : List Action}
    {action : Action} :
    Precedes first second (actions ++ [action]) ↔
      Precedes first second actions ∨
        (first action ∧ ∀ earlier ∈ actions, ¬ second earlier) := by
  constructor
  · rintro ⟨past, found, future, hactions, hfound, hpast⟩
    induction future using List.reverseRecOn with
    | nil =>
      obtain ⟨hpastEq, hfoundEq⟩ := List.append_inj' hactions rfl
      rw [List.singleton_inj] at hfoundEq
      refine Or.inr ⟨hfoundEq ▸ hfound, ?_⟩
      rw [hpastEq]
      exact hpast
    | append_singleton future last _ =>
      rw [← List.cons_append, ← List.append_assoc] at hactions
      obtain ⟨hearlier, -⟩ := List.append_inj' hactions rfl
      exact Or.inl ⟨past, found, future, hearlier, hfound, hpast⟩
  · rintro (⟨past, found, future, hactions, hfound, hpast⟩ | ⟨haction, hearlier⟩)
    · exact ⟨past, found, future ++ [action], by rw [hactions]; simp, hfound, hpast⟩
    · exact ⟨actions, action, [], rfl, haction, hearlier⟩

/-- An action of another kind does not decide the order. -/
theorem precedes_concat_of_not {first second : Action → Prop} {actions : List Action}
    {action : Action} (h : ¬ first action) :
    Precedes first second (actions ++ [action]) ↔ Precedes first second actions := by
  rw [precedes_concat_iff]
  exact or_iff_left fun hlast ↦ h hlast.1

theorem Precedes.concat {first second : Action → Prop} {actions : List Action}
    (h : Precedes first second actions) (action : Action) :
    Precedes first second (actions ++ [action]) := precedes_concat_iff.mpr (Or.inl h)

theorem Precedes.exists_mem {first second : Action → Prop} {actions : List Action}
    (h : Precedes first second actions) : ∃ action ∈ actions, first action := by
  obtain ⟨past, action, future, rfl, hfirst, -⟩ := h
  exact ⟨action, List.mem_append_right _ List.mem_cons_self, hfirst⟩

/-- An action that was taken when none of the second kind was. -/
theorem precedes_of_mem {first second : Action → Prop} {actions : List Action} {action : Action}
    (hmem : action ∈ actions) (hfirst : first action)
    (hnone : ∀ other ∈ actions, ¬ second other) : Precedes first second actions := by
  obtain ⟨past, future, rfl⟩ := List.append_of_mem hmem
  exact ⟨past, action, future, rfl, hfirst, fun other hother ↦
    hnone other (List.mem_append_left _ hother)⟩

end System

end FileForge.Foundation.Execution
