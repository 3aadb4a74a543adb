import FileForge.Foundation.Interaction

/-!
# Programs in a world that fails some of their calls

A world in which some calls fail beside those that it fails itself (`interrupted`): which ones, and
with what, may depend on the number of the call, the call and the state. A program that makes no
call after a failed one, but ends with what its handlers have made of the fault, relays the fault
(`Relays`); straight-line programs relay every fault as it is, and a handler that throws again
relays what it throws. `Makes` counts the calls of such programs.

`firstInterrupt` is the fault of the first call that fails so. `run_interrupted_of_none` and
`run_interrupted_of_some` are the two cases of a run: it is the run of the world without the
failures, or it ends with the relayed fault. `firstInterrupt_eq_some` says where the fault arose,
and `run_interrupted_cases` puts the three together.
-/

set_option autoImplicit false
set_option relaxedAutoImplicit false

namespace FileForge.Foundation.Interruption

open Interaction Program

universe u v

variable {Call : Type u} {Reply : Call → Type u} {Fault : Type u} {Result Final : Type u}
  {State : Type v}

/-! ### Programs that relay faults -/

/-- After a failed call the program makes no other; it ends with a fault related to that of the
call. -/
inductive Relays (relay : Fault → Fault → Prop) : Program Call Reply Fault Result → Prop
  | finish (outcome : Except Fault Result) : Relays relay (.finish outcome)
  | call {request : Call} {next : Except Fault (Reply request) → Program Call Reply Fault Result}
      (hfault : ∀ fault, ∃ relayed, next (.error fault) = .finish (.error relayed) ∧
        relay fault relayed)
      (hnext : ∀ reply, Relays relay (next (.ok reply))) :
      Relays relay (.call request next)

variable {relay : Fault → Fault → Prop}

theorem relays_pure (result : Result) :
    Relays relay (pure result : Program Call Reply Fault Result) := .finish _

theorem relays_throw (fault : Fault) :
    Relays relay (throw fault : Program Call Reply Fault Result) := .finish _

theorem relays_ofExcept (outcome : Except Fault Result) :
    Relays relay (Program.ofExcept outcome : Program Call Reply Fault Result) := .finish _

/-- A call by itself relays its fault as it is. -/
theorem relays_perform (hself : ∀ fault, relay fault fault) (request : Call) :
    Relays relay (perform request : Program Call Reply Fault _) :=
  .call (fun fault ↦ ⟨fault, rfl, hself fault⟩) fun reply ↦ .finish (.ok reply)

theorem relays_bind {program : Program Call Reply Fault Result}
    {rest : Result → Program Call Reply Fault Final} (hprogram : Relays relay program)
    (hrest : ∀ result, Relays relay (rest result)) : Relays relay (program >>= rest) := by
  induction hprogram with
  | finish outcome =>
    cases outcome with
    | ok result => exact hrest result
    | error fault => exact .finish _
  | @call request next hfault _ ih =>
    refine .call (fun fault ↦ ?_) ih
    obtain ⟨relayed, hends, hrelay⟩ := hfault fault
    refine ⟨relayed, ?_, hrelay⟩
    rw [hends]
    rfl

/-- A handler that throws again. -/
theorem relays_handle {relay' : Fault → Fault → Prop} {program : Program Call Reply Fault Result}
    {rethrow : Fault → Fault} (hprogram : Relays relay program)
    (hrethrow : ∀ fault relayed, relay fault relayed → relay' fault (rethrow relayed)) :
    Relays relay' (tryCatch program fun fault ↦ throw (rethrow fault)) := by
  induction hprogram with
  | finish outcome =>
    cases outcome with
    | ok result => exact .finish _
    | error fault => exact .finish _
  | @call request next hfault _ ih =>
    refine .call (fun fault ↦ ?_) ih
    obtain ⟨relayed, hends, hrelay⟩ := hfault fault
    refine ⟨rethrow relayed, ?_, hrethrow fault relayed hrelay⟩
    rw [hends]
    rfl

theorem Relays.mono {relay' : Fault → Fault → Prop} {program : Program Call Reply Fault Result}
    (h : Relays relay program)
    (himp : ∀ fault relayed, relay fault relayed → relay' fault relayed) :
    Relays relay' program := by
  induction h with
  | finish outcome => exact .finish outcome
  | call hfault _ ih =>
    refine .call (fun fault ↦ ?_) ih
    obtain ⟨relayed, hends, hrelay⟩ := hfault fault
    exact ⟨relayed, hends, himp fault relayed hrelay⟩

/-! ### The number of calls -/

/-- A program makes so many calls if it ends with a result, and never more. -/
inductive Makes : ℕ → Program Call Reply Fault Result → Prop
  | ok (result : Result) : Makes 0 (.finish (.ok result))
  | error (count : ℕ) (fault : Fault) : Makes count (.finish (.error fault))
  | call {count : ℕ} {request : Call}
      {next : Except Fault (Reply request) → Program Call Reply Fault Result}
      (hnext : ∀ reply, Makes count (next reply)) : Makes (count + 1) (.call request next)

theorem makes_pure (result : Result) :
    Makes 0 (pure result : Program Call Reply Fault Result) := .ok result

theorem makes_throw (count : ℕ) (fault : Fault) :
    Makes count (throw fault : Program Call Reply Fault Result) := .error count fault

theorem makes_ofExcept (outcome : Except Fault Result) :
    Makes 0 (Program.ofExcept outcome : Program Call Reply Fault Result) := by
  cases outcome with
  | ok result => exact .ok result
  | error fault => exact .error 0 fault

theorem makes_perform (request : Call) :
    Makes 1 (perform request : Program Call Reply Fault _) := .call makes_ofExcept

theorem makes_bind {first second : ℕ} {program : Program Call Reply Fault Result}
    {rest : Result → Program Call Reply Fault Final} (hprogram : Makes first program)
    (hrest : ∀ result, Makes second (rest result)) : Makes (first + second) (program >>= rest) := by
  induction hprogram with
  | ok result => exact (Nat.zero_add second).symm ▸ hrest result
  | error count fault => exact .error _ fault
  | @call count request next _ ih =>
    rw [Nat.succ_add]
    exact .call ih

theorem makes_handle {count : ℕ} {program : Program Call Reply Fault Result}
    {rethrow : Fault → Fault} (hprogram : Makes count program) :
    Makes count (tryCatch program fun fault ↦ throw (rethrow fault)) := by
  induction hprogram with
  | ok result => exact .ok result
  | error count fault => exact .error count (rethrow fault)
  | call _ ih => exact .call ih

/-- The number of the next call after a run. -/
theorem Makes.calls_run {count : ℕ} {program : Program Call Reply Fault Result}
    (h : Makes count program) (world : World Call Reply Fault State) (calls : ℕ) (state : State) :
    (run world program calls state).calls ≤ calls + count ∧
      ∀ result, (run world program calls state).outcome = .ok result →
        (run world program calls state).calls = calls + count := by
  induction h generalizing calls state with
  | ok result => exact ⟨Nat.le_refl calls, fun _ _ ↦ rfl⟩
  | error count fault => exact ⟨Nat.le_add_right calls count, fun _ h ↦ nomatch h⟩
  | @call count request next _ ih =>
    obtain ⟨hle, hok⟩ := ih (world calls request state).1 (calls + 1) (world calls request state).2
    rw [Nat.succ_add_eq_add_succ] at hle
    exact ⟨hle, fun result h ↦ (hok result h).trans (Nat.succ_add_eq_add_succ calls count)⟩

/-! ### Runs -/

/-- The fault that a call is made to fail with, if it is. -/
abbrev Interrupts (Call : Type u) (Fault : Type u) (State : Type v) :=
  ℕ → Call → State → Option Fault

/-- A world in which some calls fail, each leaving its mark on the state. -/
def interrupted (world : World Call Reply Fault State) (interrupts : Interrupts Call Fault State)
    (mark : Call → State → State) : World Call Reply Fault State := fun calls request state ↦
  match interrupts calls request state with
  | some fault => (.error fault, mark request state)
  | none => world calls request state

/-- The fault of the first call of a run that is made to fail. -/
def firstInterrupt (world : World Call Reply Fault State)
    (interrupts : Interrupts Call Fault State) :
    Program Call Reply Fault Result → ℕ → State → Option Fault
  | .finish _, _, _ => none
  | .call request next, calls, state =>
    match interrupts calls request state with
    | some fault => some fault
    | none =>
      firstInterrupt world interrupts (next (world calls request state).1) (calls + 1)
        (world calls request state).2

section Run

variable {world : World Call Reply Fault State} {interrupts : Interrupts Call Fault State}
  {mark : Call → State → State}

theorem interrupted_of_none {calls : ℕ} {request : Call} {state : State}
    (h : interrupts calls request state = none) :
    interrupted world interrupts mark calls request state = world calls request state := by
  simp only [interrupted, h]

theorem interrupted_of_some {calls : ℕ} {request : Call} {state : State} {fault : Fault}
    (h : interrupts calls request state = some fault) :
    interrupted world interrupts mark calls request state = (.error fault, mark request state) := by
  simp only [interrupted, h]

/-- A run that no failure meets. -/
theorem run_interrupted_of_none {program : Program Call Reply Fault Result} {calls : ℕ}
    {state : State} (h : firstInterrupt world interrupts program calls state = none) :
    run (interrupted world interrupts mark) program calls state =
      run world program calls state := by
  induction program generalizing calls state with
  | finish outcome => rfl
  | call request next ih =>
    simp only [firstInterrupt] at h
    cases hinterrupt : interrupts calls request state with
    | some fault => simp [hinterrupt] at h
    | none =>
      rw [hinterrupt] at h
      show run _ (next (interrupted world interrupts mark calls request state).1) _
        (interrupted world interrupts mark calls request state).2 = _
      rw [interrupted_of_none hinterrupt]
      exact ih _ h

/-- A run that a failure meets. -/
theorem run_interrupted_of_some {program : Program Call Reply Fault Result}
    (hprogram : Relays relay program) {calls : ℕ} {state : State} {fault : Fault}
    (h : firstInterrupt world interrupts program calls state = some fault) :
    ∃ relayed last request before, relay fault relayed ∧
      run (interrupted world interrupts mark) program calls state =
        ⟨.error relayed, last, mark request before⟩ := by
  induction hprogram generalizing calls state with
  | finish outcome => simp [firstInterrupt] at h
  | @call request next hfault _ ih =>
    simp only [firstInterrupt] at h
    cases hinterrupt : interrupts calls request state with
    | some found =>
      rw [hinterrupt] at h
      obtain rfl := Option.some.inj h
      obtain ⟨relayed, hends, hrelay⟩ := hfault found
      refine ⟨relayed, calls + 1, request, state, hrelay, ?_⟩
      show run _ (next (interrupted world interrupts mark calls request state).1) _
        (interrupted world interrupts mark calls request state).2 = _
      rw [interrupted_of_some hinterrupt, hends]
      rfl
    | none =>
      rw [hinterrupt] at h
      cases hreply : (world calls request state).1 with
      | ok reply =>
        simp only [hreply] at h
        obtain ⟨relayed, last, struck, before, hrelay, hrun⟩ := ih reply h
        refine ⟨relayed, last, struck, before, hrelay, ?_⟩
        show run _ (next (interrupted world interrupts mark calls request state).1) _
          (interrupted world interrupts mark calls request state).2 = _
        rw [interrupted_of_none hinterrupt, hreply]
        exact hrun
      | error found =>
        obtain ⟨relayed, hends, -⟩ := hfault found
        simp [hreply, hends, firstInterrupt] at h

theorem le_calls_run (program : Program Call Reply Fault Result) (calls : ℕ) (state : State) :
    calls ≤ (run world program calls state).calls := by
  induction program generalizing calls state with
  | finish outcome => exact Nat.le_refl calls
  | call request next ih => exact Nat.le_trans (Nat.le_succ calls) (ih _ _ _)

/-- A run depends on the world at the calls that it makes. -/
theorem run_congr {world' : World Call Reply Fault State}
    {program : Program Call Reply Fault Result} {calls : ℕ} {state : State}
    (h : ∀ number, calls ≤ number → number < (run world program calls state).calls →
      world number = world' number) :
    run world program calls state = run world' program calls state := by
  induction program generalizing calls state with
  | finish outcome => rfl
  | call request next ih =>
    have hlater : calls < (run world (.call request next) calls state).calls :=
      le_calls_run (next (world calls request state).1) (calls + 1) _
    have hfirst : world calls = world' calls := h calls (Nat.le_refl calls) hlater
    show run world _ _ _ = run world' (next (world' calls request state).1) (calls + 1) _
    rw [← hfirst]
    exact ih _ fun number hlow hhigh ↦ h number (Nat.le_of_succ_le hlow) hhigh

/-- Where a failure arose: at a call that the program makes. -/
theorem firstInterrupt_eq_some {property : Call → Prop}
    {program : Program Call Reply Fault Result} (hcalls : program.AllCalls property) {calls : ℕ}
    {state : State} {fault : Fault}
    (h : firstInterrupt world interrupts program calls state = some fault) :
    ∃ number request before, property request ∧
      interrupts number request before = some fault ∧
      calls ≤ number ∧ number < (run world program calls state).calls := by
  induction hcalls generalizing calls state with
  | finish outcome => simp [firstInterrupt] at h
  | @call request next hrequest _ ih =>
    simp only [firstInterrupt] at h
    cases hinterrupt : interrupts calls request state with
    | some found =>
      rw [hinterrupt] at h
      obtain rfl := Option.some.inj h
      exact ⟨calls, request, state, hrequest, hinterrupt, Nat.le_refl calls,
        le_calls_run (next _) (calls + 1) _⟩
    | none =>
      rw [hinterrupt] at h
      obtain ⟨number, other, before, hother, hfound, hlow, hhigh⟩ := ih _ h
      exact ⟨number, other, before, hother, hfound, Nat.le_of_succ_le hlow, hhigh⟩

/-- The two cases of a run: no failure meets it, or one does, and the program relays its fault. -/
theorem run_interrupted_cases {property : Call → Prop} {program : Program Call Reply Fault Result}
    (hprogram : Relays relay program) (hcalls : program.AllCalls property) (calls : ℕ)
    (state : State) :
    run (interrupted world interrupts mark) program calls state = run world program calls state ∨
      ∃ number request before fault relayed last struck found, property request ∧
        interrupts number request before = some fault ∧ calls ≤ number ∧
        number < (run world program calls state).calls ∧ relay fault relayed ∧
        run (interrupted world interrupts mark) program calls state =
          ⟨.error relayed, last, mark struck found⟩ := by
  cases hfirst : firstInterrupt world interrupts program calls state with
  | none => exact Or.inl (run_interrupted_of_none hfirst)
  | some fault =>
    obtain ⟨number, request, before, hrequest, hinterrupt, hlow, hhigh⟩ :=
      firstInterrupt_eq_some hcalls hfirst
    obtain ⟨relayed, last, struck, found, hrelay, hrun⟩ := run_interrupted_of_some hprogram hfirst
    exact Or.inr ⟨number, request, before, fault, relayed, last, struck, found, hrequest,
      hinterrupt, hlow, hhigh, hrelay, hrun⟩

end Run

end FileForge.Foundation.Interruption
