import FileForge.Foundation.Interaction

/-!
# Weakest preconditions of programs

A world that answers a call from the state alone, whatever the number of the call (`steady`), runs a
program in one way from every state. `wp` is the condition on that state under which the program
ends with a result and a state that the postcondition relates, or with a fault and a state that the
fault condition relates. It is computed along the program, so that its rules are equivalences: what
they say of the parts is all there is to say (`wp_bind`, `wp_handle`).

`wp_iff_settles` is its meaning in a run.
-/

set_option autoImplicit false
set_option relaxedAutoImplicit false

namespace FileForge.Foundation.WeakestPrecondition

open Interaction Program

universe u v

variable {Call : Type u} {Reply : Call → Type u} {Fault : Type u} {Result Final : Type u}
  {State : Type v}

/-- The answers to the calls, and the states that they leave. -/
abbrev Answers (Call : Type u) (Reply : Call → Type u) (Fault : Type u) (State : Type v) :=
  (request : Call) → State → Except Fault (Reply request) × State

/-- The world that answers so at any time. -/
def steady (answers : Answers Call Reply Fault State) : World Call Reply Fault State :=
  fun _ request state ↦ answers request state

/-- The condition on the first state. -/
def wp (answers : Answers Call Reply Fault State) (faulty : Fault → State → Prop) :
    Program Call Reply Fault Result → (Result → State → Prop) → State → Prop
  | .finish (.ok result), post, state => post result state
  | .finish (.error fault), _, state => faulty fault state
  | .call request next, post, state =>
    wp answers faulty (next (answers request state).1) post (answers request state).2

variable {answers : Answers Call Reply Fault State} {faulty : Fault → State → Prop}

/-- What the condition says of a run. -/
theorem wp_iff_settles {program : Program Call Reply Fault Result} {post : Result → State → Prop}
    {state : State} (calls : ℕ) :
    wp answers faulty program post state ↔
      Settles post faulty (run (steady answers) program calls state).outcome
        (run (steady answers) program calls state).state := by
  induction program generalizing calls state with
  | finish outcome => cases outcome <;> exact Iff.rfl
  | call request next ih => exact ih _ (calls + 1)

/-! ### Rules -/

section Rules

variable {post : Result → State → Prop} {state : State}

theorem settles_ok (result : Result) :
    Settles post faulty (.ok result) state ↔ post result state := Iff.rfl

theorem settles_error (fault : Fault) :
    Settles post faulty (.error fault : Except Fault Result) state ↔ faulty fault state := Iff.rfl

@[simp] theorem wp_pure (result : Result) :
    wp answers faulty (pure result : Program Call Reply Fault Result) post state ↔
      post result state := Iff.rfl

@[simp] theorem wp_throw (fault : Fault) :
    wp answers faulty (throw fault : Program Call Reply Fault Result) post state ↔
      faulty fault state := Iff.rfl

@[simp] theorem wp_ofExcept (outcome : Except Fault Result) :
    wp answers faulty (Program.ofExcept outcome : Program Call Reply Fault Result) post state ↔
      Settles post faulty outcome state := by
  cases outcome <;> exact Iff.rfl

@[simp] theorem wp_perform {request : Call} {post : Reply request → State → Prop} :
    wp answers faulty (perform request : Program Call Reply Fault _) post state ↔
      Settles post faulty (answers request state).1 (answers request state).2 := by
  show wp answers faulty (Program.finish (answers request state).1) post _ ↔ _
  cases (answers request state).1 <;> exact Iff.rfl

/-- The first program has to establish what the rest needs. -/
theorem wp_bind {program : Program Call Reply Fault Result}
    {rest : Result → Program Call Reply Fault Final} {post : Final → State → Prop} :
    wp answers faulty (program >>= rest) post state ↔
      wp answers faulty program (fun result ↦ wp answers faulty (rest result) post) state := by
  induction program generalizing state with
  | finish outcome => cases outcome <;> exact Iff.rfl
  | call request next ih => exact ih _

/-- A fault of the program is met by what the handler needs. -/
theorem wp_handle {program : Program Call Reply Fault Result}
    {recover : Fault → Program Call Reply Fault Result} :
    wp answers faulty (tryCatch program recover) post state ↔
      wp answers (fun fault ↦ wp answers faulty (recover fault) post) program post state := by
  induction program generalizing state with
  | finish outcome => cases outcome <;> exact Iff.rfl
  | call request next ih => exact ih _

/-- Equivalent conditions on the outcome. -/
theorem wp_congr {program : Program Call Reply Fault Result} {post' : Result → State → Prop}
    {faulty' : Fault → State → Prop}
    (hpost : ∀ result state, post result state ↔ post' result state)
    (hfaulty : ∀ fault state, faulty fault state ↔ faulty' fault state) :
    wp answers faulty program post state ↔ wp answers faulty' program post' state := by
  induction program generalizing state with
  | finish outcome =>
    cases outcome with
    | ok result => exact hpost result state
    | error fault => exact hfaulty fault state
  | call request next ih => exact ih _

end Rules

/- The rules are the whole interface: a condition on a long program is not to be unfolded. -/
attribute [irreducible] wp

end FileForge.Foundation.WeakestPrecondition
