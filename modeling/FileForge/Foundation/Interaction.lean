import Mathlib.Data.Nat.Notation
import Mathlib.Tactic.Common

/-!
# Programs that call the outside world

An asynchronous function as the calls it makes: it has finished with a result or a fault, or it
makes a call and goes on with the reply (`Program`). A call may fail, and a program may raise a
fault of its own, catch one, or let it through. The monad instance and `MonadExcept` let a program
be written in the order of the source.

`run` plays a program against a world that answers its calls. The world is told the number of the
call, so that it can fail a chosen call or change its state between two calls: everything that may
happen while the program waits is in the world.

`AllCalls` is the property of every call a program can make, whatever the world answers. It composes
along the program (`allCalls_bind`, `allCalls_handle`), and `run_induction` is the invariant rule of
a run: what the allowed calls keep, the run keeps. `within` makes a program a part of a larger one,
and `run_within` says that it runs there as it does alone. `Ensures` is a program between a
precondition and a postcondition, with a rule for a call, a bind, a handler and a loop over a
list.
-/

set_option autoImplicit false
set_option relaxedAutoImplicit false

namespace FileForge.Foundation.Interaction

universe u v

/-- A program that makes calls, each answered with a reply or a fault. -/
inductive Program (Call : Type u) (Reply : Call → Type u) (Fault Result : Type u) : Type u
  | finish (outcome : Except Fault Result)
  | call (request : Call)
      (next : Except Fault (Reply request) → Program Call Reply Fault Result)

namespace Program

variable {Call : Type u} {Reply : Call → Type u} {Fault : Type u} {Result Final : Type u}

/-- Go on with the result; a fault ends the program. -/
def andThen (program : Program Call Reply Fault Result)
    (rest : Result → Program Call Reply Fault Final) : Program Call Reply Fault Final :=
  match program with
  | .finish (.ok result) => rest result
  | .finish (.error fault) => .finish (.error fault)
  | .call request next => .call request fun reply ↦ (next reply).andThen rest

/-- Go on after a fault. -/
def handle (program : Program Call Reply Fault Result)
    (recover : Fault → Program Call Reply Fault Result) : Program Call Reply Fault Result :=
  match program with
  | .finish (.ok result) => .finish (.ok result)
  | .finish (.error fault) => recover fault
  | .call request next => .call request fun reply ↦ (next reply).handle recover

instance : Monad (Program Call Reply Fault) where
  pure result := .finish (.ok result)
  bind := andThen

instance : MonadExcept Fault (Program Call Reply Fault) where
  throw fault := .finish (.error fault)
  tryCatch := handle

/-- Make one call. -/
def perform (request : Call) : Program Call Reply Fault (Reply request) := .call request .finish

/-- Finish with a result or a fault computed without a call. -/
def ofExcept (outcome : Except Fault Result) : Program Call Reply Fault Result := .finish outcome

@[simp] theorem ofExcept_ok_bind (result : Result)
    (rest : Result → Program Call Reply Fault Final) :
    (ofExcept (.ok result) : Program Call Reply Fault Result) >>= rest = rest result := rfl

/-! ### The calls of a program -/

/-- Every call the program can make has the property. -/
inductive AllCalls (property : Call → Prop) : Program Call Reply Fault Result → Prop
  | finish (outcome : Except Fault Result) : AllCalls property (.finish outcome)
  | call {request : Call} {next : Except Fault (Reply request) → Program Call Reply Fault Result}
      (hrequest : property request) (hnext : ∀ reply, AllCalls property (next reply)) :
      AllCalls property (.call request next)

/-- The first call and the calls after it. -/
theorem AllCalls.of_call {property : Call → Prop} {request : Call}
    {next : Except Fault (Reply request) → Program Call Reply Fault Result}
    (h : AllCalls property (.call request next)) :
    property request ∧ ∀ reply, AllCalls property (next reply) := by
  cases h with
  | call hrequest hnext => exact ⟨hrequest, hnext⟩

theorem allCalls_perform {property : Call → Prop} {request : Call} (h : property request) :
    (perform request : Program Call Reply Fault _).AllCalls property :=
  .call h fun reply ↦ .finish reply

theorem allCalls_bind {property : Call → Prop} {program : Program Call Reply Fault Result}
    {rest : Result → Program Call Reply Fault Final} (hprogram : program.AllCalls property)
    (hrest : ∀ result, (rest result).AllCalls property) :
    (program >>= rest).AllCalls property := by
  induction hprogram with
  | finish outcome =>
    cases outcome with
    | ok result => exact hrest result
    | error fault => exact .finish _
  | call hrequest _ ih => exact .call hrequest ih

theorem allCalls_handle {property : Call → Prop} {program : Program Call Reply Fault Result}
    {recover : Fault → Program Call Reply Fault Result} (hprogram : program.AllCalls property)
    (hrecover : ∀ fault, (recover fault).AllCalls property) :
    (tryCatch program recover).AllCalls property := by
  induction hprogram with
  | finish outcome =>
    cases outcome with
    | ok result => exact .finish _
    | error fault => exact hrecover fault
  | call hrequest _ ih => exact .call hrequest ih

theorem allCalls_true (program : Program Call Reply Fault Result) :
    program.AllCalls fun _ ↦ True := by
  induction program with
  | finish outcome => exact .finish outcome
  | call request next ih => exact .call trivial ih

/-- A weaker property of the calls. -/
theorem AllCalls.mono {property property' : Call → Prop}
    {program : Program Call Reply Fault Result} (h : program.AllCalls property)
    (himp : ∀ request, property request → property' request) : program.AllCalls property' := by
  induction h with
  | finish outcome => exact .finish outcome
  | call hrequest _ ih => exact .call (himp _ hrequest) ih

/-! ### Runs -/

/-- A world: how the call with a given number is answered, and the state it leaves. -/
abbrev World (Call : Type u) (Reply : Call → Type u) (Fault : Type u) (State : Type v) :=
  ℕ → (request : Call) → State → Except Fault (Reply request) × State

/-- How a run has ended: the outcome, the number of the next call and the state. -/
structure Ended (Fault Result : Type u) (State : Type v) where
  outcome : Except Fault Result
  calls : ℕ
  state : State

variable {State : Type v}

/-- Play a program against a world, from a given call number and state. -/
def run (world : World Call Reply Fault State) :
    Program Call Reply Fault Result → ℕ → State → Ended Fault Result State
  | .finish outcome, calls, state => ⟨outcome, calls, state⟩
  | .call request next, calls, state =>
    run world (next (world calls request state).1) (calls + 1) (world calls request state).2

@[simp] theorem run_pure (world : World Call Reply Fault State) (result : Result) (calls : ℕ)
    (state : State) :
    run world (pure result : Program Call Reply Fault Result) calls state =
      ⟨.ok result, calls, state⟩ := rfl

@[simp] theorem run_throw (world : World Call Reply Fault State) (fault : Fault) (calls : ℕ)
    (state : State) :
    run world (throw fault : Program Call Reply Fault Result) calls state =
      ⟨.error fault, calls, state⟩ := rfl

@[simp] theorem run_perform (world : World Call Reply Fault State) (request : Call) (calls : ℕ)
    (state : State) :
    run world (perform request : Program Call Reply Fault _) calls state =
      ⟨(world calls request state).1, calls + 1, (world calls request state).2⟩ := rfl

/-- What happens after a run: the rest of the program, or the fault. -/
def Ended.andThen (ended : Ended Fault Result State)
    (rest : Result → ℕ → State → Ended Fault Final State) : Ended Fault Final State :=
  match ended.outcome with
  | .ok result => rest result ended.calls ended.state
  | .error fault => ⟨.error fault, ended.calls, ended.state⟩

@[simp] theorem Ended.andThen_ok (result : Result) (calls : ℕ) (state : State)
    (rest : Result → ℕ → State → Ended Fault Final State) :
    Ended.andThen ⟨.ok result, calls, state⟩ rest = rest result calls state := rfl

@[simp] theorem Ended.andThen_error (fault : Fault) (calls : ℕ) (state : State)
    (rest : Result → ℕ → State → Ended Fault Final State) :
    Ended.andThen ⟨.error fault, calls, state⟩ rest = ⟨.error fault, calls, state⟩ := rfl

/-- What happens after a run under a handler. -/
def Ended.handle (ended : Ended Fault Result State)
    (recover : Fault → ℕ → State → Ended Fault Result State) : Ended Fault Result State :=
  match ended.outcome with
  | .ok result => ⟨.ok result, ended.calls, ended.state⟩
  | .error fault => recover fault ended.calls ended.state

@[simp] theorem Ended.handle_ok (result : Result) (calls : ℕ) (state : State)
    (recover : Fault → ℕ → State → Ended Fault Result State) :
    Ended.handle ⟨.ok result, calls, state⟩ recover = ⟨.ok result, calls, state⟩ := rfl

@[simp] theorem Ended.handle_error (fault : Fault) (calls : ℕ) (state : State)
    (recover : Fault → ℕ → State → Ended Fault Result State) :
    Ended.handle ⟨.error fault, calls, state⟩ recover = recover fault calls state := rfl

theorem run_bind (world : World Call Reply Fault State) (program : Program Call Reply Fault Result)
    (rest : Result → Program Call Reply Fault Final) (calls : ℕ) (state : State) :
    run world (program >>= rest) calls state =
      (run world program calls state).andThen fun result calls state ↦
        run world (rest result) calls state := by
  induction program generalizing calls state with
  | finish outcome =>
    cases outcome with
    | ok result => rfl
    | error fault => rfl
  | call request next ih => exact ih _ _ _

theorem run_handle (world : World Call Reply Fault State)
    (program : Program Call Reply Fault Result)
    (recover : Fault → Program Call Reply Fault Result) (calls : ℕ) (state : State) :
    run world (tryCatch program recover) calls state =
      (run world program calls state).handle fun fault calls state ↦
        run world (recover fault) calls state := by
  induction program generalizing calls state with
  | finish outcome =>
    cases outcome with
    | ok result => rfl
    | error fault => rfl
  | call request next ih => exact ih _ _ _

/-- The invariant rule of a run. Assumes: a property of the state that every call the program may
make keeps, at any call number. -/
theorem run_induction {world : World Call Reply Fault State} {allowed : Call → Prop}
    {invariant : State → Prop}
    (hstep : ∀ calls request state, allowed request → invariant state →
      invariant (world calls request state).2)
    {program : Program Call Reply Fault Result} (hprogram : program.AllCalls allowed) (calls : ℕ)
    (state : State) (hstate : invariant state) :
    invariant (run world program calls state).state := by
  induction hprogram generalizing calls state with
  | finish outcome => exact hstate
  | call hrequest _ ih => exact ih _ _ _ (hstep calls _ state hrequest hstate)

/-! ### A program inside a larger one -/

section Within

variable {Call' : Type u} {Reply' : Call' → Type u} {State' : Type v}

/-- A program as a part of one that makes other calls as well. -/
def within (embed : Call → Call') (reply : ∀ request, Reply' (embed request) → Reply request) :
    Program Call Reply Fault Result → Program Call' Reply' Fault Result
  | .finish outcome => .finish outcome
  | .call request next =>
    .call (embed request) fun answer ↦ (next (answer.map (reply request))).within embed reply

/-- The part runs as it would on its own. Assumes: the larger world answers the embedded calls as
the smaller one does, on the part of its state that `get` and `put` single out. -/
theorem run_within {world : World Call Reply Fault State} {world' : World Call' Reply' Fault State'}
    {embed : Call → Call'} {reply : ∀ request, Reply' (embed request) → Reply request}
    {get : State' → State} {put : State' → State → State'}
    (hget : ∀ state part, get (put state part) = part)
    (hput : ∀ state part part', put (put state part) part' = put state part')
    (hsame : ∀ state, put state (get state) = state)
    (hanswer : ∀ calls request state,
      (world' calls (embed request) state).1.map (reply request) =
          (world calls request (get state)).1 ∧
        (world' calls (embed request) state).2 = put state (world calls request (get state)).2)
    (program : Program Call Reply Fault Result) (calls : ℕ) (state : State') :
    run world' (program.within embed reply) calls state =
      ⟨(run world program calls (get state)).outcome, (run world program calls (get state)).calls,
        put state (run world program calls (get state)).state⟩ := by
  induction program generalizing calls state with
  | finish outcome =>
    show (⟨outcome, calls, state⟩ : Ended Fault Result State') =
      ⟨outcome, calls, put state (get state)⟩
    rw [hsame]
  | call request next ih =>
    obtain ⟨hreply, hstate⟩ := hanswer calls request state
    show run world' ((next ((world' calls (embed request) state).1.map (reply request))).within
      embed reply) (calls + 1) (world' calls (embed request) state).2 = _
    rw [hreply, hstate, ih, hget, hput]
    rfl

end Within

/-! ### Preconditions and postconditions -/

/-- The condition on an outcome and a state: one for results and one for faults. -/
def Settles (post : Result → State → Prop) (faulty : Fault → State → Prop) :
    Except Fault Result → State → Prop
  | .ok result, state => post result state
  | .error fault, state => faulty fault state

/-- From every state with the precondition, and at every call number, the program ends with a result
and a state that the postcondition relates, or with a fault and a state that the fault condition
relates. -/
def Ensures (world : World Call Reply Fault State) (pre : State → Prop)
    (program : Program Call Reply Fault Result) (post : Result → State → Prop)
    (faulty : Fault → State → Prop) : Prop :=
  ∀ calls state, pre state → Settles post faulty (run world program calls state).outcome
    (run world program calls state).state

variable {world : World Call Reply Fault State} {pre : State → Prop}
  {post : Result → State → Prop} {faulty : Fault → State → Prop}

/-- The consequence rule. -/
theorem Ensures.weaken {program : Program Call Reply Fault Result} {pre' : State → Prop}
    {post' : Result → State → Prop} {faulty' : Fault → State → Prop}
    (h : Ensures world pre program post faulty) (hpre : ∀ state, pre' state → pre state)
    (hpost : ∀ result state, post result state → post' result state)
    (hfaulty : ∀ fault state, faulty fault state → faulty' fault state) :
    Ensures world pre' program post' faulty' := by
  intro calls state hstate
  have hends := h calls state (hpre state hstate)
  cases houtcome : (run world program calls state).outcome with
  | ok result =>
    rw [houtcome] at hends
    exact hpost _ _ hends
  | error fault =>
    rw [houtcome] at hends
    exact hfaulty _ _ hends

theorem ensures_pure {result : Result} (h : ∀ state, pre state → post result state) :
    Ensures world pre (pure result : Program Call Reply Fault Result) post faulty :=
  fun _ state hpre ↦ h state hpre

theorem ensures_perform {request : Call} {post : Reply request → State → Prop}
    (h : ∀ calls state, pre state →
      Settles post faulty (world calls request state).1 (world calls request state).2) :
    Ensures world pre (perform request : Program Call Reply Fault _) post faulty :=
  fun calls state hpre ↦ h calls state hpre

/-- What the first program ensures is what the rest may assume. -/
theorem ensures_bind {program : Program Call Reply Fault Result}
    {rest : Result → Program Call Reply Fault Final} {middle : Result → State → Prop}
    {post : Final → State → Prop} (hprogram : Ensures world pre program middle faulty)
    (hrest : ∀ result, Ensures world (middle result) (rest result) post faulty) :
    Ensures world pre (program >>= rest) post faulty := by
  intro calls state hpre
  have hfirst := hprogram calls state hpre
  rw [run_bind]
  cases houtcome : (run world program calls state).outcome with
  | ok result =>
    rw [houtcome] at hfirst
    rw [Ended.andThen, houtcome]
    exact hrest result _ _ hfirst
  | error fault =>
    rw [houtcome] at hfirst
    rw [Ended.andThen, houtcome]
    exact hfirst

/-- What the program ensures of a fault is what the handler may assume. -/
theorem ensures_handle {program : Program Call Reply Fault Result}
    {recover : Fault → Program Call Reply Fault Result} {middle : Fault → State → Prop}
    (hprogram : Ensures world pre program post middle)
    (hrecover : ∀ fault, Ensures world (middle fault) (recover fault) post faulty) :
    Ensures world pre (tryCatch program recover) post faulty := by
  intro calls state hpre
  have hfirst := hprogram calls state hpre
  rw [run_handle]
  cases houtcome : (run world program calls state).outcome with
  | ok result =>
    rw [houtcome] at hfirst
    rw [Ended.handle, houtcome]
    exact hfirst
  | error fault =>
    rw [houtcome] at hfirst
    rw [Ended.handle, houtcome]
    exact hrecover fault _ _ hfirst

/-- The loop rule: what every round keeps, the loop keeps. -/
theorem ensures_foldlM {Item : Type*} {round : Result → Item → Program Call Reply Fault Result}
    {invariant : State → Prop}
    (hround : ∀ result item, Ensures world invariant (round result item)
      (fun _ state ↦ invariant state) faulty) (items : List Item) (result : Result) :
    Ensures world invariant (items.foldlM round result) (fun _ state ↦ invariant state) faulty := by
  induction items generalizing result with
  | nil => exact ensures_pure fun _ h ↦ h
  | cons item rest ih =>
    rw [List.foldlM_cons]
    exact ensures_bind (hround result item) fun next ↦ ih next

end Program

end FileForge.Foundation.Interaction
