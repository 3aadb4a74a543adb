import FileForge.Foundation.Execution
import FileForge.Foundation.Interaction

/-!
# Programs that run beside each other

A process that serves requests runs one program for each of them, and while one waits for a reply
the others go on. A run of `pool` starts programs, lets any of them make its next call, and lets
any of them be lost with its process, in any order; the world answers each call in one step.
`callers` reads off the actions for whom each of the programs runs and which of the calls were its
own.

`pool_induction` is the invariant rule: what every call that the programs can make keeps, every run
keeps. It needs only the calls of each program by itself (`AllCalls`). `pool_covered` is the rule
for what the programs spend and earn: where each of them earns before it spends (`Covered`), no more
is spent than has been earned, however their calls are mixed.
-/

set_option autoImplicit false
set_option relaxedAutoImplicit false

namespace FileForge.Foundation.Interleaving

open Interaction Execution

universe u

variable {Call : Type u} {Reply : Call → Type u} {Fault Result : Type u} {Request State : Type u}

/-- Programs on their way, the number of the next call, and the state of the world. -/
structure Pool (Call : Type u) (Reply : Call → Type u) (Fault Result State : Type u) where
  running : List (Program Call Reply Fault Result)
  calls : ℕ
  state : State

inductive Action (Request : Type u)
  | start (request : Request)
  /-- The program with this index makes its next call. -/
  | advance (index : ℕ)
  /-- The program with this index is lost with its process. -/
  | lose (index : ℕ)

/-- One action. -/
def step (world : Program.World Call Reply Fault State)
    (handler : Request → Program Call Reply Fault Result)
    (pool : Pool Call Reply Fault Result State) :
    Action Request → Option (Pool Call Reply Fault Result State)
  | .start request => some { pool with running := pool.running ++ [handler request] }
  | .advance index =>
    match pool.running[index]? with
    | some (.call request next) =>
      some {
        running := pool.running.set index (next (world pool.calls request pool.state).1)
        calls := pool.calls + 1, state := (world pool.calls request pool.state).2 }
    | _ => none
  | .lose index => some { pool with running := pool.running.eraseIdx index }

/-- The runs from a state of the world. -/
def pool (world : Program.World Call Reply Fault State)
    (handler : Request → Program Call Reply Fault Result) (state : State) :
    System (Pool Call Reply Fault Result State) (Action Request) where
  start := { running := [], calls := 0, state := state }
  step := step world handler

/-! ### Who runs -/

/-- A request whose program is on its way, and the numbers of the calls that the program has
made. -/
structure Caller (Request : Type u) where
  request : Request
  calls : List ℕ := []

/-- The callers, each at the place of its program, and the number of the next call. -/
structure Roll (Request : Type u) where
  callers : List (Caller Request) := []
  calls : ℕ := 0

/-- The requests that an action starts. -/
def started : Action Request → Option Request
  | .start request => some request
  | .advance _ | .lose _ => none

/-- An action is entered: a call is made by the program whose turn it is. -/
def Roll.enter (roll : Roll Request) : Action Request → Roll Request
  | .start request => { roll with callers := roll.callers ++ [{ request := request }] }
  | .advance index => {
      callers := roll.callers.modify index fun caller ↦
        { caller with calls := caller.calls ++ [roll.calls] }
      calls := roll.calls + 1 }
  | .lose index => { roll with callers := roll.callers.eraseIdx index }

def rollOf (actions : List (Action Request)) : Roll Request := actions.foldl Roll.enter {}

/-- Who runs after these actions. -/
def callers (actions : List (Action Request)) : List (Caller Request) := (rollOf actions).callers

theorem rollOf_concat (actions : List (Action Request)) (action : Action Request) :
    rollOf (actions ++ [action]) = (rollOf actions).enter action := by
  rw [rollOf, List.foldl_append, List.foldl_cons, List.foldl_nil, rollOf]

theorem callers_sublist (actions : List (Action Request)) :
    ((callers actions).map Caller.request).Sublist (actions.filterMap started) := by
  induction actions using List.reverseRecOn with
  | nil => exact List.Sublist.refl _
  | append_singleton actions action ih =>
    rw [callers] at ih ⊢
    rw [rollOf_concat, List.filterMap_append]
    cases action with
    | start request =>
      rw [Roll.enter, List.map_append]
      exact ih.append (List.Sublist.refl _)
    | advance index =>
      have hsame : (((rollOf actions).callers.modify index fun caller ↦
          { caller with calls := caller.calls ++ [(rollOf actions).calls] }).map
            Caller.request) = (rollOf actions).callers.map Caller.request := by
        refine List.ext_getElem? fun place ↦ ?_
        rw [List.getElem?_map, List.getElem?_map, List.getElem?_modify, Option.map_eq_map,
          Option.map_map]
        refine congrArg (Option.map · _) (funext fun caller ↦ ?_)
        rw [Function.comp_apply]
        split_ifs <;> rfl
      rw [Roll.enter, hsame]
      exact ih.trans (List.sublist_append_left _ _)
    | lose index =>
      rw [Roll.enter]
      exact (((List.eraseIdx_sublist _ index).map _).trans ih).trans (List.sublist_append_left _ _)

/-! ### Invariants -/

/-- All programs make only calls with the property. -/
def Bound (allowed : Call → Prop) (pool : Pool Call Reply Fault Result State) : Prop :=
  ∀ program ∈ pool.running, program.AllCalls allowed

variable {world : Program.World Call Reply Fault State}
  {handler : Request → Program Call Reply Fault Result} {allowed : Call → Prop}

theorem bound_step (hhandler : ∀ request, (handler request).AllCalls allowed)
    {before after : Pool Call Reply Fault Result State} {action : Action Request}
    (hbound : Bound allowed before) (hstep : step world handler before action = some after) :
    Bound allowed after := by
  cases action with
  | start request =>
    cases hstep
    exact List.forall_mem_append.mpr ⟨hbound, List.forall_mem_singleton.mpr (hhandler request)⟩
  | lose index =>
    cases hstep
    exact fun program hprogram ↦ hbound program (List.mem_of_mem_eraseIdx hprogram)
  | advance index =>
    rw [step] at hstep
    split at hstep
    · rename_i request next hrunning
      cases hstep
      have hcalls := (hbound _ (List.mem_of_getElem? hrunning)).of_call.2
      intro program hprogram
      rcases List.mem_or_eq_of_mem_set hprogram with hbefore | rfl
      · exact hbound program hbefore
      · exact hcalls _
    · cases hstep

/-- What a step does to the state of the world: nothing, or an allowed call. -/
theorem state_step {before after : Pool Call Reply Fault Result State} {action : Action Request}
    (hbound : Bound allowed before) (hstep : step world handler before action = some after) :
    after.state = before.state ∨
      ∃ request, allowed request ∧ after.state = (world before.calls request before.state).2 := by
  cases action with
  | start request =>
    cases hstep
    exact Or.inl rfl
  | lose index =>
    cases hstep
    exact Or.inl rfl
  | advance index =>
    rw [step] at hstep
    split at hstep
    · rename_i request next hrunning
      cases hstep
      exact Or.inr ⟨request, (hbound _ (List.mem_of_getElem? hrunning)).of_call.1, rfl⟩
    · cases hstep

/-- The invariant rule. Assumes: programs that make only allowed calls, and an invariant that holds
at the start and that every allowed call keeps, whatever its number. -/
theorem pool_induction {invariant : State → Prop} {state : State}
    (hhandler : ∀ request, (handler request).AllCalls allowed) (hstart : invariant state)
    (hkeep : ∀ calls request state, allowed request → invariant state →
      invariant (world calls request state).2)
    {actions : List (Action Request)} {after : Pool Call Reply Fault Result State}
    (hrun : (pool world handler state).run actions = some after) : invariant after.state := by
  have hboth : Bound allowed after ∧ invariant after.state := by
    refine System.run_induction (motive := fun _ pool ↦ Bound allowed pool ∧ invariant pool.state)
      ⟨fun _ hprogram ↦ absurd hprogram List.not_mem_nil, hstart⟩ ?_ hrun
    intro _ before action next _ ⟨hbound, hinvariant⟩ hstep
    refine ⟨bound_step hhandler hbound hstep, ?_⟩
    rcases state_step hbound hstep with hsame | ⟨request, hallowed, hnext⟩
    · rw [hsame]
      exact hinvariant
    · rw [hnext]
      exact hkeep _ request _ hallowed hinvariant
  exact hboth.2

/-! ### Credits -/

section Credits

variable (cost : Call → ℕ) (gain : (request : Call) → Except Fault (Reply request) → ℕ)

/-- The program can pay for its calls: it starts with a credit, a call takes its cost off it, and a
reply adds its gain. -/
inductive Covered : ℕ → Program Call Reply Fault Result → Prop
  | finish (credit : ℕ) (outcome : Except Fault Result) : Covered credit (.finish outcome)
  | call {credit : ℕ} {request : Call}
      {next : Except Fault (Reply request) → Program Call Reply Fault Result}
      (hcost : cost request ≤ credit)
      (hnext : ∀ reply, Covered (credit - cost request + gain request reply) (next reply)) :
      Covered credit (.call request next)

variable {cost gain}

theorem Covered.of_call {credit : ℕ} {request : Call}
    {next : Except Fault (Reply request) → Program Call Reply Fault Result}
    (h : Covered cost gain credit (.call request next)) :
    cost request ≤ credit ∧
      ∀ reply, Covered cost gain (credit - cost request + gain request reply) (next reply) := by
  cases h with
  | call hcost hnext => exact ⟨hcost, hnext⟩

theorem Covered.mono {program : Program Call Reply Fault Result} {credit more : ℕ}
    (h : Covered cost gain credit program) (hle : credit ≤ more) :
    Covered cost gain more program := by
  induction h generalizing more with
  | finish credit outcome => exact .finish _ _
  | call hcost _ ih => exact .call (Nat.le_trans hcost hle) fun reply ↦ ih reply (by omega)

/-- A call at the start of a program; after a fault there is nothing to pay. -/
theorem covered_perform_bind {Final : Type u} {credit : ℕ} {request : Call}
    {rest : Reply request → Program Call Reply Fault Final} (hcost : cost request ≤ credit)
    (hrest : ∀ reply, Covered cost gain (credit - cost request + gain request (.ok reply))
      (rest reply)) :
    Covered cost gain credit (Program.perform request >>= rest) := by
  refine .call hcost fun reply ↦ ?_
  cases reply with
  | ok reply => exact hrest reply
  | error fault => exact .finish _ _

/-- What is free at the start of a program leaves its credit. -/
theorem covered_bind_of_free {Final : Type u} {credit : ℕ}
    {program : Program Call Reply Fault Result}
    {rest : Result → Program Call Reply Fault Final}
    (hfree : program.AllCalls fun request ↦ cost request = 0)
    (hrest : ∀ result, Covered cost gain credit (rest result)) :
    Covered cost gain credit (program >>= rest) := by
  induction hfree with
  | finish outcome =>
    cases outcome with
    | ok result => exact hrest result
    | error fault => exact .finish _ _
  | call hrequest _ ih =>
    refine .call (hrequest ▸ Nat.zero_le _) fun reply ↦ (ih reply).mono ?_
    omega

/-- Programs that can pay for their calls, each out of its own part of a total. -/
def AllCovered (cost : Call → ℕ) (gain : (request : Call) → Except Fault (Reply request) → ℕ) :
    ℕ → List (Program Call Reply Fault Result) → Prop
  | _, [] => True
  | total, program :: rest =>
    ∃ credit others, credit + others ≤ total ∧ Covered cost gain credit program ∧
      AllCovered cost gain others rest

theorem allCovered_append {total : ℕ} {programs : List (Program Call Reply Fault Result)}
    {program : Program Call Reply Fault Result} (h : AllCovered cost gain total programs)
    (hprogram : Covered cost gain 0 program) :
    AllCovered cost gain total (programs ++ [program]) := by
  induction programs generalizing total with
  | nil => exact ⟨0, 0, Nat.zero_le _, hprogram, trivial⟩
  | cons first rest ih =>
    obtain ⟨credit, others, htotal, hfirst, hrest⟩ := h
    exact ⟨credit, others, htotal, hfirst, ih hrest⟩

theorem allCovered_eraseIdx {total : ℕ} {programs : List (Program Call Reply Fault Result)}
    (h : AllCovered cost gain total programs) (index : ℕ) :
    ∃ others ≤ total, AllCovered cost gain others (programs.eraseIdx index) := by
  induction programs generalizing total index with
  | nil => exact ⟨total, Nat.le_refl _, h⟩
  | cons first rest ih =>
    obtain ⟨credit, others, htotal, hfirst, hrest⟩ := h
    cases index with
    | zero => exact ⟨others, by omega, hrest⟩
    | succ index =>
      obtain ⟨fewer, hfewer, hcovered⟩ := ih hrest index
      exact ⟨credit + fewer, by omega, credit, fewer, Nat.le_refl _, hfirst, hcovered⟩

/-- One of the programs and the others: it can be replaced by a program with a credit of its
own. -/
theorem allCovered_set {total index : ℕ} {programs : List (Program Call Reply Fault Result)}
    {program : Program Call Reply Fault Result} (h : AllCovered cost gain total programs)
    (hindex : programs[index]? = some program) :
    ∃ credit others, credit + others ≤ total ∧ Covered cost gain credit program ∧
      ∀ more replacement, Covered cost gain more replacement →
        AllCovered cost gain (more + others) (programs.set index replacement) := by
  induction programs generalizing total index with
  | nil => simp at hindex
  | cons first rest ih =>
    obtain ⟨credit, others, htotal, hfirst, hrest⟩ := h
    cases index with
    | zero =>
      rw [List.getElem?_cons_zero, Option.some.injEq] at hindex
      rw [← hindex]
      exact ⟨credit, others, htotal, hfirst, fun more replacement hmore ↦
        ⟨more, others, Nat.le_refl _, hmore, hrest⟩⟩
    | succ index =>
      rw [List.getElem?_cons_succ] at hindex
      obtain ⟨own, fewer, hsum, hown, hreplace⟩ := ih hrest hindex
      refine ⟨own, credit + fewer, by omega, hown, fun more replacement hmore ↦ ?_⟩
      exact ⟨credit, more + fewer, by omega, hfirst, hreplace more replacement hmore⟩

/-- The rule of credits. Assumes: every program starts without a credit, and a call raises what has
been spent by its cost at most and what has been earned by the gain of its reply at least. -/
theorem pool_covered (spent earned : State → ℕ) {state : State}
    (hhandler : ∀ request, Covered cost gain 0 (handler request))
    (hstart : spent state ≤ earned state)
    (hworld : ∀ calls request state,
      spent (world calls request state).2 ≤ spent state + cost request ∧
        earned state + gain request (world calls request state).1 ≤
          earned (world calls request state).2)
    {actions : List (Action Request)} {after : Pool Call Reply Fault Result State}
    (hrun : (pool world handler state).run actions = some after) :
    spent after.state ≤ earned after.state := by
  have hbalance : ∃ total, spent after.state + total ≤ earned after.state ∧
      AllCovered cost gain total after.running := by
    have hnone : AllCovered cost gain 0 (pool world handler state).start.running := trivial
    refine System.run_induction (motive := fun _ pool ↦ ∃ total,
      spent pool.state + total ≤ earned pool.state ∧ AllCovered cost gain total pool.running)
      ⟨0, hstart, hnone⟩ ?_ hrun
    intro _ before action next _ ⟨total, hsum, hcovered⟩ hstep
    cases action with
    | start request =>
      cases hstep
      exact ⟨total, hsum, allCovered_append hcovered (hhandler request)⟩
    | lose index =>
      cases hstep
      obtain ⟨others, hothers, hrest⟩ := allCovered_eraseIdx hcovered index
      exact ⟨others, Nat.le_trans (Nat.add_le_add_left hothers _) hsum, hrest⟩
    | advance index =>
      change step world handler before (.advance index) = some next at hstep
      rw [step] at hstep
      split at hstep
      · rename_i request continuation hrunning
        cases hstep
        obtain ⟨credit, others, htotal, hprogram, hreplace⟩ := allCovered_set hcovered hrunning
        obtain ⟨hcost, hnext⟩ := hprogram.of_call
        obtain ⟨hspent, hearned⟩ := hworld before.calls request before.state
        refine ⟨_, ?_, hreplace _ _ (hnext (world before.calls request before.state).1)⟩
        dsimp only
        omega
      · cases hstep
  obtain ⟨total, hsum, -⟩ := hbalance
  exact Nat.le_trans (Nat.le_add_right _ _) hsum

end Credits

end FileForge.Foundation.Interleaving
