import FileForge.Foundation.Interruption
import FileForge.Foundation.RelyGuarantee
import FileForge.Foundation.WeakestPrecondition

/-!
# Programs that do not meet

Programs that run beside each other and of which none reads what another writes. Each owner has a
notion of states that are the same to it (`same`); its calls are answered alike in such states, and
the calls of the others lead from a state to one that is the same to it (`Apart`).

Which calls a program makes depends on the replies, so that a program is confined to its calls only
as long as the replies are possible ones (`Confined`). A confined program ends alike from states
that are the same to it (`Confined.run_same`). `pool_alone` is what follows for programs beside each
other in a world that may fail any of their calls: each ends as it would have ended alone, from the
state that all of them started in, or with a fault if one of its own calls has failed.
-/

set_option autoImplicit false
set_option relaxedAutoImplicit false

namespace FileForge.Foundation.Separation

open Interaction Interaction.Program Interleaving Interruption RelyGuarantee WeakestPrecondition

universe u

/-! ### Confined programs -/

section Confined

variable {Call : Type u} {Reply : Call → Type u} {Fault Result Final : Type u}
  (allowed : Call → Prop) (possible : (request : Call) → Reply request → Prop)

/-- As long as the replies are possible ones, all calls are allowed, and a result is as the condition
says. -/
inductive Confined (post : Result → Prop) : Program Call Reply Fault Result → Prop
  | ok {result : Result} (h : post result) : Confined post (.finish (.ok result))
  | error (fault : Fault) : Confined post (.finish (.error fault))
  | call {request : Call} {next : Except Fault (Reply request) → Program Call Reply Fault Result}
      (hrequest : allowed request)
      (hok : ∀ reply, possible request reply → Confined post (next (.ok reply)))
      (herror : ∀ fault, Confined post (next (.error fault))) : Confined post (.call request next)

variable {allowed possible} {post : Result → Prop}

theorem Confined.of_call {request : Call}
    {next : Except Fault (Reply request) → Program Call Reply Fault Result}
    (h : Confined allowed possible post (.call request next)) :
    allowed request ∧
      (∀ reply, possible request reply → Confined allowed possible post (next (.ok reply))) ∧
      ∀ fault, Confined allowed possible post (next (.error fault)) := by
  cases h with
  | call hrequest hok herror => exact ⟨hrequest, hok, herror⟩

theorem confined_ofExcept {outcome : Except Fault Result}
    (h : ∀ result, outcome = .ok result → post result) :
    Confined allowed possible post (Program.ofExcept outcome : Program Call Reply Fault Result) := by
  cases outcome with
  | ok result => exact .ok (h result rfl)
  | error fault => exact .error fault

theorem confined_perform {request : Call} {post : Reply request → Prop}
    (hrequest : allowed request) (hpost : ∀ reply, possible request reply → post reply) :
    Confined allowed possible post (perform request : Program Call Reply Fault _) :=
  .call hrequest (fun reply hreply ↦ .ok (hpost reply hreply)) .error

theorem confined_bind {program : Program Call Reply Fault Result}
    {rest : Result → Program Call Reply Fault Final} {post' : Final → Prop}
    (hprogram : Confined allowed possible post program)
    (hrest : ∀ result, post result → Confined allowed possible post' (rest result)) :
    Confined allowed possible post' (program >>= rest) := by
  induction hprogram with
  | ok h => exact hrest _ h
  | error fault => exact .error fault
  | call hrequest _ _ ihok iherror => exact .call hrequest ihok iherror

/-- A handler that throws again. -/
theorem confined_rethrow {program : Program Call Reply Fault Result} (rethrow : Fault → Fault)
    (hprogram : Confined allowed possible post program) :
    Confined allowed possible post (tryCatch program fun fault ↦ throw (rethrow fault)) := by
  induction hprogram with
  | ok h => exact .ok h
  | error fault => exact .error (rethrow fault)
  | call hrequest _ _ ihok iherror => exact .call hrequest ihok iherror

/-- States that are the same to a program: it ends alike from them, at any call number. -/
theorem Confined.run_same {State : Type u} {answers : Answers Call Reply Fault State}
    {same : State → State → Prop}
    (hpossible : ∀ request state reply, (answers request state).1 = .ok reply →
      possible request reply)
    (hsame : ∀ request first second, allowed request → same first second →
      (answers request first).1 = (answers request second).1 ∧
        same (answers request first).2 (answers request second).2)
    {program : Program Call Reply Fault Result} (h : Confined allowed possible post program)
    (calls calls' : ℕ) {first second : State} (hstates : same first second) :
    (run (steady answers) program calls first).outcome =
        (run (steady answers) program calls' second).outcome ∧
      same (run (steady answers) program calls first).state
        (run (steady answers) program calls' second).state := by
  induction h generalizing calls calls' first second with
  | ok h => exact ⟨rfl, hstates⟩
  | error fault => exact ⟨rfl, hstates⟩
  | @call request next hrequest _ _ ihok iherror =>
    obtain ⟨hreply, hnext⟩ := hsame request first second hrequest hstates
    show (run _ (next (answers request first).1) _ _).outcome =
        (run _ (next (answers request second).1) _ _).outcome ∧ same
      (run _ (next (answers request first).1) _ _).state
      (run _ (next (answers request second).1) _ _).state
    rw [← hreply]
    cases hfirst : (answers request first).1 with
    | ok reply =>
      exact ihok reply (hpossible request first reply hfirst) (calls + 1) (calls' + 1) hnext
    | error fault => exact iherror fault (calls + 1) (calls' + 1) hnext

end Confined

/-! ### Programs beside each other -/

section Pools

variable {Call : Type u} {Reply : Call → Type u} {Fault Result Request State Key : Type u}
  (world : World Call Reply Fault State) (answers : Answers Call Reply Fault State)
  (allowed : Key → Call → Prop) (possible : (request : Call) → Reply request → Prop)
  (same : Key → State → State → Prop)

/-- A call with this number can fail. -/
def Struck (calls : ℕ) : Prop := ∃ request state, world calls request state ≠ answers request state

/-- A world that answers as `answers` does or fails, in which owners do not meet. -/
structure Apart : Prop where
  equivalence : ∀ key, Equivalence (same key)
  replies : ∀ request state reply, (answers request state).1 = .ok reply → possible request reply
  fails : ∀ calls request state, world calls request state ≠ answers request state →
    ∃ fault, (world calls request state).1 = .error fault
  own : ∀ key request first second, allowed key request → same key first second →
    (answers request first).1 = (answers request second).1 ∧
      same key (answers request first).2 (answers request second).2
  others : ∀ key other calls request state, key ≠ other → allowed other request →
    same key state (world calls request state).2

/-- A program on its way for a request that has met no failure: left alone, it would end as it would
have from the first state. -/
structure Alone (key : Key) (handled : Program Call Reply Fault Result) (first now : State)
    (relay : Fault → Fault → Prop) (post : Result → Prop)
    (program : Program Call Reply Fault Result) : Prop where
  confined : Confined (allowed key) possible post program
  relays : Relays relay program
  outcome : (run (steady answers) handled 0 first).outcome =
    (run (steady answers) program 0 now).outcome
  state : same key (run (steady answers) handled 0 first).state
    (run (steady answers) program 0 now).state

/-- A program that has ended with a fault after one of its own calls could fail. -/
def Failed (made : List ℕ) (program : Program Call Reply Fault Result) : Prop :=
  (∃ fault, program = .finish (.error fault)) ∧ ∃ number ∈ made, Struck world answers number

variable {world answers allowed possible same}

section Steps

variable {key : Key} {handled program : Program Call Reply Fault Result} {first now later : State}
  {relay : Fault → Fault → Prop} {post : Result → Prop}

theorem alone_start (hapart : Apart world answers allowed possible same)
    (hconfined : Confined (allowed key) possible post handled) (hrelays : Relays relay handled)
    (hnow : same key first now) :
    Alone answers allowed possible same key handled first now relay post handled := by
  obtain ⟨houtcome, hstate⟩ := hconfined.run_same hapart.replies (hapart.own key) 0 0 hnow
  exact ⟨hconfined, hrelays, houtcome, hstate⟩

/-- Nothing has changed that the program is concerned with. -/
theorem Alone.stay (hapart : Apart world answers allowed possible same)
    (h : Alone answers allowed possible same key handled first now relay post program)
    (hlater : same key now later) :
    Alone answers allowed possible same key handled first later relay post program := by
  obtain ⟨houtcome, hstate⟩ := h.confined.run_same hapart.replies (hapart.own key) 0 0 hlater
  exact ⟨h.confined, h.relays, h.outcome.trans houtcome,
    (hapart.equivalence key).trans h.state hstate⟩

/-- A call of the program is answered, or it fails, and the program ends. -/
theorem Alone.advance (hapart : Apart world answers allowed possible same) {asked : Call}
    {next : Except Fault (Reply asked) → Program Call Reply Fault Result} (calls : ℕ)
    (h : Alone answers allowed possible same key handled first now relay post (.call asked next)) :
    Alone answers allowed possible same key handled first (world calls asked now).2 relay post
        (next (world calls asked now).1) ∨
      Failed world answers [calls] (next (world calls asked now).1) := by
  obtain ⟨-, hok, herror⟩ := h.confined.of_call
  cases h.relays with
  | call hfault hnext =>
    by_cases hanswered : world calls asked now = answers asked now
    · rw [hanswered]
      have hrest : Confined (allowed key) possible post (next (answers asked now).1) ∧
          Relays relay (next (answers asked now).1) := by
        cases hreply : (answers asked now).1 with
        | ok reply => exact ⟨hok reply (hapart.replies asked now reply hreply), hnext reply⟩
        | error fault =>
          obtain ⟨relayed, hended, -⟩ := hfault fault
          exact ⟨herror fault, hended ▸ .finish _⟩
      obtain ⟨houtcome, hstate⟩ := hrest.1.run_same hapart.replies (hapart.own key) 1 0
        ((hapart.equivalence key).refl (answers asked now).2)
      exact Or.inl ⟨hrest.1, hrest.2, h.outcome.trans houtcome,
        (hapart.equivalence key).trans h.state hstate⟩
    · obtain ⟨fault, hreply⟩ := hapart.fails calls asked now hanswered
      obtain ⟨relayed, hended, -⟩ := hfault fault
      rw [hreply, hended]
      exact Or.inr ⟨⟨relayed, rfl⟩, calls, List.mem_singleton.mpr rfl, asked, now, hanswered⟩

theorem Failed.mono {made more : List ℕ} (h : Failed world answers made program)
    (hmore : made ⊆ more) : Failed world answers more program := by
  obtain ⟨hended, number, hnumber, hstruck⟩ := h
  exact ⟨hended, number, hmore hnumber, hstruck⟩

theorem not_failed_call {made : List ℕ} {asked : Call}
    {next : Except Fault (Reply asked) → Program Call Reply Fault Result} :
    ¬ Failed world answers made (.call asked next) := by
  rintro ⟨⟨fault, hended⟩, -⟩
  cases hended

end Steps

/-- Each program that has ended has ended as its request would have alone, or with a fault after one
of its own calls could fail. To an owner without a program the state is the same as at the start.
Assumes: distinct owners, and programs that are confined to their calls and make none after a
fault. -/
theorem pool_alone {owner : Request → Key} {handler : Request → Program Call Reply Fault Result}
    {post : Result → Prop} {relay : Fault → Fault → Prop}
    (hapart : Apart world answers allowed possible same)
    (hconfined : ∀ request, Confined (allowed (owner request)) possible post (handler request))
    (hrelays : ∀ request, Relays relay (handler request)) {state : State}
    {actions : List (Action Request)} {after : Pool Call Reply Fault Result State}
    (hrun : (pool world handler state).run actions = some after)
    (hdistinct : ((actions.filterMap started).map owner).Nodup) :
    (∀ (index : ℕ) outcome, after.running[index]? = some (.finish outcome) →
      ∃ caller, (callers actions)[index]? = some caller ∧
        ((outcome = (run (steady answers) (handler caller.request) 0 state).outcome ∧
          same (owner caller.request) (run (steady answers) (handler caller.request) 0 state).state
            after.state) ∨
        (∃ fault, outcome = .error fault) ∧ ∃ number ∈ caller.calls, Struck world answers number)) ∧
    ∀ key ∉ (actions.filterMap started).map owner, same key state after.state := by
  have hfollows := pool_follows owner
    (fun _ now caller program ↦ Alone answers allowed possible same (owner caller.request)
      (handler caller.request) state now relay post program ∨
        Failed world answers caller.calls program)
    (fun now key ↦ same key state now) (fun key ↦ (hapart.equivalence key).refl state)
    (fun _ now request hnow ↦ Or.inl (alone_start hapart (hconfined request) (hrelays request) hnow))
    (fun calls _ _ _ _ _ hprogram ↦ ((hprogram.resolve_right not_failed_call).advance hapart
      calls).imp id fun hfailed ↦ hfailed.mono (List.subset_append_right _ _))
    (fun calls now caller asked _ other _ hne hprogram hothers ↦ hothers.imp
      (fun halone ↦ halone.stay hapart (hapart.others _ _ calls asked now hne
        (hprogram.resolve_right not_failed_call).confined.of_call.1)) id)
    (fun calls now caller asked _ key hne hprogram hkey ↦ (hapart.equivalence key).trans hkey
      (hapart.others _ _ calls asked now hne
        (hprogram.resolve_right not_failed_call).confined.of_call.1)) hrun hdistinct
  refine ⟨fun index outcome houtcome ↦ ?_, hfollows.2⟩
  obtain ⟨caller, hcaller, halone | ⟨⟨fault, hended⟩, hstruck⟩⟩ := hfollows.1 index _ houtcome
  · exact ⟨caller, hcaller, Or.inl ⟨halone.outcome.symm, halone.state⟩⟩
  · exact ⟨caller, hcaller, Or.inr ⟨⟨fault, Program.finish.inj hended⟩, hstruck⟩⟩

end Pools

end FileForge.Foundation.Separation
