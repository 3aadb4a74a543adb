import FileForge.Foundation.Interaction

/-!
# Programs that make one call of a kind

Most calls of a program only look, and one of them may change something (`Once`): every other call
is of the first kind, and that one, if it is made at all, is of the second. The property composes
with a program that only looks, in front of it or behind it, whatever the world answers.

`run_once` is its rule: what the calls that look keep is kept by the run, unless the one call was
made; then the run ends with what that call leaves behind and the calls that look keep.
-/

set_option autoImplicit false
set_option relaxedAutoImplicit false

namespace FileForge.Foundation.Interaction.Program

universe u v

variable {Call : Type u} {Reply : Call → Type u} {Fault : Type u} {Result Final : Type u}
  {looks changes : Call → Prop}

/-- All calls only look, but for one at most. -/
inductive Once (looks changes : Call → Prop) : Program Call Reply Fault Result → Prop
  | never {program : Program Call Reply Fault Result} (hprogram : program.AllCalls looks) :
    Once looks changes program
  | later {request : Call} {next : Except Fault (Reply request) → Program Call Reply Fault Result}
      (hrequest : looks request) (hnext : ∀ reply, Once looks changes (next reply)) :
    Once looks changes (.call request next)
  | now {request : Call} {next : Except Fault (Reply request) → Program Call Reply Fault Result}
      (hrequest : changes request) (hnext : ∀ reply, (next reply).AllCalls looks) :
    Once looks changes (.call request next)

theorem once_perform {request : Call} (hrequest : changes request) :
    Once looks changes (perform request : Program Call Reply Fault _) :=
  .now hrequest fun reply ↦ .finish reply

/-- A program that only looks comes first. -/
theorem once_bind_of_looks {program : Program Call Reply Fault Result}
    {rest : Result → Program Call Reply Fault Final} (hprogram : program.AllCalls looks)
    (hrest : ∀ result, Once looks changes (rest result)) :
    Once looks changes (program >>= rest) := by
  induction hprogram with
  | finish outcome =>
    cases outcome with
    | ok result => exact hrest result
    | error fault => exact .never (.finish _)
  | call hrequest _ ih => exact .later hrequest ih

/-- What follows only looks. -/
theorem Once.bind {program : Program Call Reply Fault Result}
    {rest : Result → Program Call Reply Fault Final} (hprogram : Once looks changes program)
    (hrest : ∀ result, (rest result).AllCalls looks) : Once looks changes (program >>= rest) := by
  induction hprogram with
  | never hprogram => exact .never (allCalls_bind hprogram hrest)
  | later hrequest _ ih => exact .later hrequest ih
  | now hrequest hnext => exact .now hrequest fun reply ↦ allCalls_bind (hnext reply) hrest

/-- The handler only looks. -/
theorem Once.handle {program : Program Call Reply Fault Result}
    {recover : Fault → Program Call Reply Fault Result} (hprogram : Once looks changes program)
    (hrecover : ∀ fault, (recover fault).AllCalls looks) :
    Once looks changes (tryCatch program recover) := by
  induction hprogram with
  | never hprogram => exact .never (allCalls_handle hprogram hrecover)
  | later hrequest _ ih => exact .later hrequest ih
  | now hrequest hnext => exact .now hrequest fun reply ↦ allCalls_handle (hnext reply) hrecover

/-- The rule of a run. Assumes: calls that look keep what holds before the one call and what holds
after it, and the one call leads from the first to the second. -/
theorem run_once {State : Type v} (world : World Call Reply Fault State) (before : State → Prop)
    (after : Call → State → Prop)
    (hbefore : ∀ calls request state, looks request → before state →
      before (world calls request state).2)
    (hchange : ∀ calls request state, changes request → before state →
      after request (world calls request state).2)
    (hafter : ∀ calls request state changed, looks request → after changed state →
      after changed (world calls request state).2)
    {program : Program Call Reply Fault Result} (hprogram : Once looks changes program)
    (calls : ℕ) (state : State) (hstate : before state) :
    before (run world program calls state).state ∨
      ∃ request, changes request ∧ after request (run world program calls state).state := by
  induction hprogram generalizing calls state with
  | never hprogram => exact Or.inl (run_induction hbefore hprogram calls state hstate)
  | later hrequest _ ih => exact ih _ _ _ (hbefore calls _ state hrequest hstate)
  | now hrequest hnext =>
    refine Or.inr ⟨_, hrequest, ?_⟩
    exact run_induction (fun calls request state ↦ hafter calls request state _) (hnext _) _ _
      (hchange calls _ state hrequest hstate)

end FileForge.Foundation.Interaction.Program
