import FileForge.Foundation.Interleaving
import Mathlib.Data.List.Nodup

/-!
# What a program may rely on

Programs that run beside each other, where each has a part of the state to itself or shares it in a
way that is agreed on. A program looks at the state through the view of its owner. Between two of
its calls the view changes only as the others may change it (`rely`), and a call of its own changes
it as the call may (`may`). `Safe` follows a program through all that can happen then, up to the
condition on its outcome, with a rule for each way to put programs together.

`pool_follows` is the rule for programs with distinct owners: what each has when it starts, its own
calls keep and the calls of the others keep, it has at every moment, for the request that it runs
for. `pool_safe` is the rule for
runs that follows: programs that are safe by themselves end as their conditions say, however their
calls are mixed.
-/

set_option autoImplicit false
set_option relaxedAutoImplicit false

namespace FileForge.Foundation.RelyGuarantee

open Interaction Interleaving Execution

universe u

/-! ### Safe programs -/

section Safe

variable {Call : Type u} {Reply : Call → Type u} {Fault Result Final View : Type u}
  (rely : View → View → Prop)
  (may : (request : Call) → View → Except Fault (Reply request) → View → Prop)

/-- From a view on, the program ends as the condition says and stays so. -/
inductive Safe (post : Except Fault Result → View → Prop) :
    View → Program Call Reply Fault Result → Prop
  | finish {view : View} {outcome : Except Fault Result}
      (h : ∀ later, rely view later → post outcome later) : Safe post view (.finish outcome)
  | call {view : View} {request : Call}
      {next : Except Fault (Reply request) → Program Call Reply Fault Result}
      (h : ∀ now reply after, rely view now → may request now reply after →
        Safe post after (next reply)) :
      Safe post view (.call request next)

variable {rely may} {post : Except Fault Result → View → Prop}

theorem Safe.of_finish {view : View} {outcome : Except Fault Result}
    (h : Safe rely may post view (.finish outcome)) : ∀ later, rely view later →
      post outcome later := by
  cases h with
  | finish h => exact h

theorem Safe.of_call {view : View} {request : Call}
    {next : Except Fault (Reply request) → Program Call Reply Fault Result}
    (h : Safe rely may post view (.call request next)) : ∀ now reply after, rely view now →
      may request now reply after → Safe rely may post after (next reply) := by
  cases h with
  | call h => exact h

/-- What the first program ends with is what the rest may start from. Assumes: nothing has to
happen between two calls. -/
theorem safe_bind (hrefl : ∀ view, rely view view) {program : Program Call Reply Fault Result}
    {rest : Result → Program Call Reply Fault Final} {view : View}
    {middle : Except Fault Result → View → Prop} {post : Except Fault Final → View → Prop}
    (hprogram : Safe rely may middle view program)
    (hok : ∀ result later, middle (.ok result) later → Safe rely may post later (rest result))
    (herror : ∀ fault later, middle (.error fault) later → post (.error fault) later) :
    Safe rely may post view (program >>= rest) := by
  induction hprogram with
  | @finish view outcome h =>
    cases outcome with
    | ok result => exact hok result view (h view (hrefl view))
    | error fault => exact .finish fun later hlater ↦ herror fault later (h later hlater)
  | call _ ih => exact .call fun now reply after hnow hmay ↦ ih now reply after hnow hmay

theorem safe_handle (hrefl : ∀ view, rely view view) {program : Program Call Reply Fault Result}
    {recover : Fault → Program Call Reply Fault Result} {view : View}
    {middle : Except Fault Result → View → Prop}
    (hprogram : Safe rely may middle view program)
    (hok : ∀ result later, middle (.ok result) later → post (.ok result) later)
    (herror : ∀ fault later, middle (.error fault) later →
      Safe rely may post later (recover fault)) :
    Safe rely may post view (tryCatch program recover) := by
  induction hprogram with
  | @finish view outcome h =>
    cases outcome with
    | ok result => exact .finish fun later hlater ↦ hok result later (h later hlater)
    | error fault => exact herror fault view (h view (hrefl view))
  | call _ ih => exact .call fun now reply after hnow hmay ↦ ih now reply after hnow hmay

/-- A program of which nothing is asked. -/
theorem safe_true (view : View) (program : Program Call Reply Fault Result) :
    Safe rely may (fun _ _ ↦ True) view program := by
  induction program generalizing view with
  | finish outcome => exact .finish fun _ _ ↦ trivial
  | call request next ih => exact .call fun _ reply after _ _ ↦ ih reply after

/-- The consequence rule. -/
theorem Safe.weaken {post' : Except Fault Result → View → Prop} {view : View}
    {program : Program Call Reply Fault Result} (h : Safe rely may post view program)
    (hpost : ∀ outcome later, post outcome later → post' outcome later) :
    Safe rely may post' view program := by
  induction h with
  | finish h => exact .finish fun later hlater ↦ hpost _ later (h later hlater)
  | call _ ih => exact .call fun now reply after hnow hmay ↦ ih now reply after hnow hmay

/-- A property of the view that others keep, and that the calls of the program keep, is still there
at the end. -/
theorem safe_of_kept (holds : View → Prop) {allowed : Call → Prop}
    (hrely : ∀ view later, rely view later → holds view → holds later)
    (hmay : ∀ request now reply after, allowed request → holds now → may request now reply after →
      holds after)
    {program : Program Call Reply Fault Result} (hprogram : program.AllCalls allowed) {view : View}
    (hview : holds view) :
    Safe rely may (fun _ later ↦ holds later) view program := by
  induction hprogram generalizing view with
  | finish outcome => exact .finish fun later hlater ↦ hrely view later hlater hview
  | call hrequest _ ih =>
    exact .call fun now reply after hnow hcalled ↦
      ih reply (hmay _ now reply after hrequest (hrely view now hnow hview) hcalled)

end Safe

/-! ### Programs with owners -/

section Owners

variable {Call : Type u} {Reply : Call → Type u} {Fault Result Request State Key : Type u}
  {world : Program.World Call Reply Fault State}
  {handler : Request → Program Call Reply Fault Result}
  {holds : Request → Program Call Reply Fault Result → Prop}

/-- Each of the programs runs for a request of its own, with what holds of the two. -/
structure Follows (holds : Request → Program Call Reply Fault Result → Prop)
    (requests : List Request) (running : List (Program Call Reply Fault Result)) : Prop where
  length : requests.length = running.length
  each : ∀ (index : ℕ) request program, requests[index]? = some request →
    running[index]? = some program → holds request program

variable {requests : List Request} {running : List (Program Call Reply Fault Result)}

theorem Follows.start (h : Follows holds requests running) {request : Request}
    {program : Program Call Reply Fault Result} (hnew : holds request program) :
    Follows holds (requests ++ [request]) (running ++ [program]) := by
  refine ⟨by simp [h.length], fun index other found hother hfound ↦ ?_⟩
  rw [List.getElem?_append] at hother hfound
  rw [← h.length] at hfound
  split_ifs at hother hfound with hindex
  · exact h.each index other found hother hfound
  · rw [List.getElem?_singleton] at hother hfound
    split_ifs at hother hfound
    rw [← Option.some.inj hother, ← Option.some.inj hfound]
    exact hnew

theorem Follows.lose (h : Follows holds requests running) (index : ℕ) :
    Follows holds (requests.eraseIdx index) (running.eraseIdx index) := by
  refine ⟨by simp only [List.length_eraseIdx, h.length], fun place request program hrequest
    hprogram ↦ ?_⟩
  rw [List.getElem?_eraseIdx] at hrequest hprogram
  split_ifs at hrequest hprogram
  · exact h.each place request program hrequest hprogram
  · exact h.each (place + 1) request program hrequest hprogram

/-- One of the programs goes on, and the others stay. Assumes: distinct owners. -/
theorem Follows.advance {owner : Request → Key}
    (holds' : Request → Program Call Reply Fault Result → Prop) (h : Follows holds requests running)
    (hdistinct : (requests.map owner).Nodup) {index : ℕ} (moved : Request → Request)
    {program next : Program Call Reply Fault Result} (hindex : running[index]? = some program) :
    ∃ request ∈ requests, holds request program ∧ (holds' (moved request) next →
      (∀ other found, owner other ≠ owner request → holds other found → holds' other found) →
        Follows holds' (requests.modify index moved) (running.set index next)) := by
  have hlt : index < running.length := (List.getElem?_eq_some_iff.mp hindex).1
  obtain ⟨request, hrequest⟩ : ∃ request, requests[index]? = some request :=
    ⟨_, List.getElem?_eq_getElem (h.length ▸ hlt)⟩
  refine ⟨request, List.mem_of_getElem? hrequest, h.each index request program hrequest hindex,
    fun hnext hstay ↦ ?_⟩
  refine ⟨by rw [List.length_set, List.length_modify, h.length],
    fun place other found hother hfound ↦ ?_⟩
  by_cases hplace : index = place
  · obtain rfl := hplace
    rw [List.getElem?_set_self hlt, Option.some.injEq] at hfound
    rw [List.getElem?_modify_eq, hrequest, Option.map_eq_map, Option.map_some,
      Option.some.injEq] at hother
    rw [← hfound, ← hother]
    exact hnext
  · rw [List.getElem?_set_ne hplace] at hfound
    rw [List.getElem?_modify_ne moved _ hplace] at hother
    refine hstay other found (fun heq ↦ ?_) (h.each place other found hother hfound)
    have hplaces : (requests.map owner)[place]? = (requests.map owner)[index]? := by
      rw [List.getElem?_map, List.getElem?_map, hother, hrequest, Option.map_some,
        Option.map_some, heq]
    have hbound : index < (requests.map owner).length := by
      rw [List.length_map, h.length]
      exact hlt
    exact hplace ((List.getElem?_inj hbound hdistinct).mp hplaces.symm)

/-- Where a pool stands after these actions: each program runs for its caller, and the owners without
a request have been left alone. -/
structure Stands (owner : Request → Key)
    (holds : ℕ → State → Caller Request → Program Call Reply Fault Result → Prop)
    (idle : State → Key → Prop) (actions : List (Action Request))
    (pool : Pool Call Reply Fault Result State) : Prop where
  follows : Follows (holds pool.calls pool.state) (callers actions) pool.running
  counted : (rollOf actions).calls = pool.calls
  rest : ∀ key ∉ (actions.filterMap started).map owner, idle pool.state key

section Stands

variable {owner : Request → Key}
  {holds : ℕ → State → Caller Request → Program Call Reply Fault Result → Prop}
  {idle : State → Key → Prop} {before : Pool Call Reply Fault Result State}
  {actions : List (Action Request)}

theorem stands_nil {state : State} (hidle : ∀ key, idle state key) :
    Stands owner holds idle [] (⟨[], 0, state⟩ : Pool Call Reply Fault Result State) := by
  refine ⟨⟨rfl, fun index caller program hcaller ↦ ?_⟩, rfl, fun key _ ↦ hidle key⟩
  simp [callers, rollOf] at hcaller

theorem Stands.start (h : Stands owner holds idle actions before) {request : Request}
    (hnew : owner request ∉ (actions.filterMap started).map owner)
    (hstart : idle before.state (owner request) →
      holds before.calls before.state { request := request } (handler request)) :
    Stands owner holds idle (actions ++ [.start request])
      { before with running := before.running ++ [handler request] } := by
  refine ⟨?_, ?_, fun key hkey ↦ h.rest key fun hmem ↦ hkey ?_⟩
  · rw [callers, rollOf_concat]
    exact h.follows.start (hstart (h.rest _ hnew))
  · rw [rollOf_concat]
    exact h.counted
  · rw [List.filterMap_append, List.map_append]
    exact List.mem_append_left _ hmem

theorem Stands.lose (h : Stands owner holds idle actions before) (index : ℕ) :
    Stands owner holds idle (actions ++ [.lose index])
      { before with running := before.running.eraseIdx index } := by
  refine ⟨?_, ?_, fun key hkey ↦ h.rest key fun hmem ↦ hkey ?_⟩
  · rw [callers, rollOf_concat]
    exact h.follows.lose index
  · rw [rollOf_concat]
    exact h.counted
  · rw [List.filterMap_append, List.map_append]
    exact List.mem_append_left _ hmem

/-- One call. Assumes: distinct owners, and a call that keeps what its own program has, what the
others have and what the owners without a program have. -/
theorem Stands.advance (h : Stands owner holds idle actions before)
    (hdistinct : ((actions.filterMap started).map owner).Nodup) {index : ℕ} {asked : Call}
    {next : Except Fault (Reply asked) → Program Call Reply Fault Result}
    (hrunning : before.running[index]? = some (.call asked next)) {state : State}
    {reply : Except Fault (Reply asked)}
    (hown : ∀ caller, holds before.calls before.state caller (.call asked next) →
      holds (before.calls + 1) state { caller with calls := caller.calls ++ [before.calls] }
        (next reply))
    (hother : ∀ caller other program, owner other.request ≠ owner caller.request →
      holds before.calls before.state caller (.call asked next) →
      holds before.calls before.state other program →
      holds (before.calls + 1) state other program)
    (hidle : ∀ caller key, key ≠ owner caller.request →
      holds before.calls before.state caller (.call asked next) → idle before.state key →
      idle state key) :
    Stands owner holds idle (actions ++ [.advance index])
      ⟨before.running.set index (next reply), before.calls + 1, state⟩ := by
  have howners : ((callers actions).map (owner ∘ Caller.request)).Nodup := by
    rw [← List.map_map]
    exact hdistinct.sublist ((callers_sublist actions).map owner)
  obtain ⟨caller, hcaller, hholds, hadvance⟩ := h.follows.advance (holds (before.calls + 1) state)
    howners (fun caller ↦ { caller with calls := caller.calls ++ [before.calls] }) hrunning
  refine ⟨?_, ?_, fun key hkey ↦ ?_⟩
  · rw [callers, rollOf_concat, Roll.enter, h.counted]
    exact hadvance (hown caller hholds) fun other program hne ↦
      hother caller other program hne hholds
  · rw [rollOf_concat, Roll.enter, h.counted]
  · have hpast : key ∉ (actions.filterMap started).map owner := by
      intro hmem
      apply hkey
      rw [List.filterMap_append, List.map_append]
      exact List.mem_append_left _ hmem
    refine hidle caller key ?_ hholds (h.rest key hpast)
    rintro rfl
    exact hpast (List.mem_map_of_mem
      ((callers_sublist actions).subset (List.mem_map_of_mem hcaller)))

end Stands

/-- The rule for programs with distinct owners. Assumes: a property that a program has when it
starts, as long as nothing has been done to what its owner is concerned with, that its own calls
keep, and that the calls of the others keep. -/
theorem pool_follows (owner : Request → Key)
    (holds : ℕ → State → Caller Request → Program Call Reply Fault Result → Prop)
    (idle : State → Key → Prop) {state : State} {actions : List (Action Request)}
    {after : Pool Call Reply Fault Result State} (hidle : ∀ key, idle state key)
    (hstart : ∀ calls state request, idle state (owner request) →
      holds calls state { request := request } (handler request))
    (hown : ∀ calls state caller asked next, calls < after.calls →
      holds calls state caller (.call asked next) →
      holds (calls + 1) (world calls asked state).2
        { caller with calls := caller.calls ++ [calls] } (next (world calls asked state).1))
    (hother : ∀ calls state caller asked next other program,
      owner other.request ≠ owner caller.request →
      holds calls state caller (.call asked next) → holds calls state other program →
      holds (calls + 1) (world calls asked state).2 other program)
    (hrest : ∀ calls state caller asked next key, key ≠ owner caller.request →
      holds calls state caller (.call asked next) → idle state key →
      idle (world calls asked state).2 key)
    (hrun : (pool world handler state).run actions = some after)
    (hdistinct : ((actions.filterMap started).map owner).Nodup) :
    (∀ (index : ℕ) program, after.running[index]? = some program →
      ∃ caller, (callers actions)[index]? = some caller ∧
        holds after.calls after.state caller program) ∧
    ∀ key ∉ (actions.filterMap started).map owner, idle after.state key := by
  have hstands : Stands owner holds idle actions after := by
    refine System.run_induction (motive := fun actions pool ↦ pool.calls ≤ after.calls →
      ((actions.filterMap started).map owner).Nodup → Stands owner holds idle actions pool) ?_ ?_
      hrun (Nat.le_refl _) hdistinct
    · exact fun _ _ ↦ stands_nil hidle
    · intro past before action next _ ih hstep hbound hnodup
      rw [List.filterMap_append, List.map_append] at hnodup
      have hpast : ((past.filterMap started).map owner).Nodup := (List.nodup_append.mp hnodup).1
      cases action with
      | start request =>
        cases hstep
        have hnew : owner request ∉ (past.filterMap started).map owner := fun hmem ↦
          (List.nodup_append.mp hnodup).2.2 _ hmem _ (List.mem_singleton.mpr rfl) rfl
        exact (ih hbound hpast).start hnew (hstart before.calls before.state request)
      | lose index =>
        cases hstep
        exact (ih hbound hpast).lose index
      | advance index =>
        change step world handler before (.advance index) = some next at hstep
        rw [step] at hstep
        split at hstep
        · rename_i asked continuation hrunning
          cases hstep
          exact (ih (Nat.le_of_succ_le hbound) hpast).advance hpast hrunning
            (fun caller ↦ hown _ _ caller asked continuation hbound)
            (fun caller other ↦ hother _ _ caller asked continuation other)
            (fun caller ↦ hrest _ _ caller asked continuation)
        · cases hstep
  refine ⟨fun index program hprogram ↦ ?_, hstands.rest⟩
  have hlt : index < after.running.length := (List.getElem?_eq_some_iff.mp hprogram).1
  have hcaller := List.getElem?_eq_getElem (hstands.follows.length ▸ hlt)
  exact ⟨_, hcaller, hstands.follows.each index _ _ hcaller hprogram⟩

end Owners

/-! ### Runs -/

section Runs

variable {Call : Type u} {Reply : Call → Type u} {Fault Result View Request State Key : Type u}
  {world : Program.World Call Reply Fault State}
  {handler : Request → Program Call Reply Fault Result}
  (owner : Request → Key) (view : Key → State → View) (allowed : Key → Call → Prop)
  (rely : View → View → Prop)
  (may : (request : Call) → View → Except Fault (Reply request) → View → Prop)
  (post : Request → Except Fault Result → View → Prop)

/-- The rule for runs. Assumes: what others may do is a preorder; a call of one owner is as it may
be in the view of this owner, and as the others may do in the view of another. -/
theorem pool_safe (hrefl : ∀ view, rely view view)
    (htrans : ∀ first second third, rely first second → rely second third → rely first third)
    {state : State} {actions : List (Action Request)}
    {after : Pool Call Reply Fault Result State}
    (hown : ∀ key calls request state, calls < after.calls → allowed key request →
      may request (view key state) (world calls request state).1
        (view key (world calls request state).2))
    (hother : ∀ key other calls request state, key ≠ other → allowed other request →
      rely (view key state) (view key (world calls request state).2))
    (hcalls : ∀ request, (handler request).AllCalls (allowed (owner request)))
    (hsafe : ∀ request seen, Safe rely may (post request) seen (handler request))
    (hrun : (pool world handler state).run actions = some after)
    (hdistinct : ((actions.filterMap started).map owner).Nodup) {index : ℕ}
    {outcome : Except Fault Result} (houtcome : after.running[index]? = some (.finish outcome)) :
    ∃ caller, (callers actions)[index]? = some caller ∧
      post caller.request outcome (view (owner caller.request) after.state) := by
  -- a program is safe from a view that can have become the present one
  have hfollows := pool_follows owner
    (fun _ state caller program ↦ program.AllCalls (allowed (owner caller.request)) ∧
      ∃ seen, rely seen (view (owner caller.request) state) ∧
        Safe rely may (post caller.request) seen program)
    (fun _ _ ↦ True) (fun _ ↦ trivial)
    (fun _ _ request _ ↦ ⟨hcalls request, _, hrefl _, hsafe request _⟩)
    (fun calls state caller asked next hbound ⟨hall, seen, hseen, hsafe⟩ ↦
      ⟨hall.of_call.2 _, _, hrefl _,
        hsafe.of_call _ _ _ hseen (hown _ calls asked state hbound hall.of_call.1)⟩)
    (fun calls state caller asked _ other _ hne ⟨hall, _⟩ ⟨hothers, seen, hseen, hsafe⟩ ↦
      ⟨hothers, seen, htrans _ _ _ hseen (hother _ _ calls asked state hne hall.of_call.1), hsafe⟩)
    (fun _ _ _ _ _ _ _ _ _ ↦ trivial) hrun hdistinct
  obtain ⟨caller, hcaller, -, seen, hseen, hsafe⟩ := hfollows.1 index _ houtcome
  exact ⟨caller, hcaller, hsafe.of_finish _ hseen⟩

end Runs

end FileForge.Foundation.RelyGuarantee
