import FileForge.Api.Limiter
import FileForge.Foundation.Execution

/-!
# Whether old windows clean themselves up

The two commands of the limiter, taken apart: a call counts itself, and the one that has created the
counter sets its expiry with a second command. Any number of processes make such calls, in any order;
every command may fail, carried out or not, and a process may stop with its calls in progress.
`steps_createRateLimiter` says that a call that nothing comes between is `createRateLimiter`.

The promise is that a counter has an expiry when no call is in progress. A counter is left without
one by the call that has created it and does not come to its second command, and no later call sets
it, for none finds the count at one again. `allExpire_iff_meets` says which steps leave one behind.
-/

set_option autoImplicit false
set_option relaxedAutoImplicit false

namespace FileForge.Api.WindowExpiry

open Foundation.ExpiringStore Foundation.Execution Limiter

/-! ### Calls in progress -/

/-- A call of the limiter in a process. It has been counted when its `INCR` has answered one and its
`EXPIRE` is still to come. -/
structure Call where
  process : ℕ
  key : String
  windowSeconds : ℕ
  counted : Bool := false

structure State where
  db : Keyspace String ℕ := empty
  /-- The clock of Redis, in milliseconds. -/
  now : ℕ := 0
  calls : ℕ → Option Call := fun _ ↦ none

/-- What becomes of a command: it completes, or it fails, carried out or not. -/
inductive Fate
  | completes
  | fails (applied : Bool)
  deriving DecidableEq

def Fate.applied : Fate → Bool
  | .completes => true
  | .fails applied => applied

inductive Action
  /-- A request reaches a limiter of a process, whose clock shows a moment. -/
  | arrive (id process : ℕ) (options : RateLimitOptions) (ip : Option String) (clock : ℕ)
  /-- `INCR`. -/
  | incr (id : ℕ) (fate : Fate)
  /-- `EXPIRE`. -/
  | expire (id : ℕ) (fate : Fate)
  /-- A process stops. -/
  | stop (process : ℕ)
  | tick (ms : ℕ)

def State.setCall (state : State) (id : ℕ) (call : Option Call) : State :=
  { state with calls := Function.update state.calls id call }

/-- The call that a request starts. -/
def callOf (process : ℕ) (options : RateLimitOptions) (ip : Option String) (clock : ℕ) : Call where
  process := process
  key := limiterKey options.bucket (clientKey ip) (windowOf options clock)
  windowSeconds := options.windowSeconds

def step (state : State) : Action → Option State
  | .arrive id process options ip clock =>
    if (state.calls id).isNone then
      some (state.setCall id (some (callOf process options ip clock)))
    else none
  | .incr id fate =>
    match state.calls id with
    | some call =>
      if call.counted then none
      else
        let counted := Foundation.ExpiringStore.incr state.db state.now call.key
        let after := if fate.applied then { state with db := counted.2 } else state
        -- A failure is caught, and any other count than one ends the call.
        if fate = .completes ∧ counted.1 = 1 then
          some (after.setCall id (some { call with counted := true }))
        else some (after.setCall id none)
    | none => none
  | .expire id fate =>
    match state.calls id with
    | some call =>
      if call.counted then
        let after := if fate.applied then
          { state with
            db := Foundation.ExpiringStore.expire state.db state.now call.key call.windowSeconds }
          else state
        some (after.setCall id none)
      else none
    | none => none
  | .stop process =>
    some { state with calls := fun id ↦ (state.calls id).filter fun call ↦ call.process ≠ process }
  | .tick ms => some { state with now := state.now + ms }

/-- Any number of processes, and no counter yet. -/
def processes : System State Action where
  start := {}
  step := step

/-- A failure of `Outage`, where nothing is carried out. -/
def fateOf (failed : Bool) : Fate := if failed then .fails false else .completes

/-- The steps of a call that nothing comes between. -/
def stepsOf (state : State) (id process : ℕ) (options : RateLimitOptions) (outage : Outage)
    (ip : Option String) : List Action :=
  let call := callOf process options ip state.now
  [.arrive id process options ip state.now, .incr id (fateOf outage.incr)] ++
    if outage.incr = false ∧ (incr state.db state.now call.key).1 = 1 then
      [.expire id (fateOf outage.expire)]
    else []

/-- A call by itself is `createRateLimiter`. Assumes: the call is a new one. -/
theorem steps_createRateLimiter {state : State} {id : ℕ} (hfree : state.calls id = none)
    (process : ℕ) (options : RateLimitOptions) (outage : Outage) (ip : Option String) :
    (stepsOf state id process options outage ip).foldlM step state =
      some { state with db := (createRateLimiter true options outage ip state.now state.db).2 } := by
  have hsame : Function.update state.calls id none = state.calls := by
    rw [← hfree, Function.update_eq_self]
  obtain ⟨incrFails, expireFails⟩ := outage
  cases incrFails with
  | true =>
    simp [stepsOf, fateOf, createRateLimiter, step, State.setCall, callOf, hfree, hsame,
      Fate.applied]
  | false =>
    by_cases hone : (incr state.db state.now
        (limiterKey options.bucket (clientKey ip) (windowOf options state.now))).1 = 1
    · cases expireFails <;>
        simp [stepsOf, fateOf, createRateLimiter, step, State.setCall, callOf, hfree, hone, hsame,
          Fate.applied]
    · simp [stepsOf, fateOf, createRateLimiter, step, State.setCall, callOf, hfree, hone, hsame,
        Fate.applied]

/-! ### The promise -/

/-- Every counter that is present has an expiry. -/
def AllExpire (state : State) : Prop :=
  ∀ key entry, live state.db state.now key = some entry → entry.expireAt.isSome = true

/-- No call of the limiter is in progress. -/
def Idle (state : State) : Prop := ∀ id, state.calls id = none

/-- A step that leaves no counter behind: an answer that is lost is not that of the `INCR` that
created the counter, an `EXPIRE` does not fail before it is carried out, and no process stops
between the two. -/
def Finishes (state : State) : Action → Prop
  | .incr id (.fails true) => ∀ call, state.calls id = some call →
      (live state.db state.now call.key).isSome = true
  | .expire _ (.fails false) => False
  | .stop process => ∀ id call, state.calls id = some call → call.process = process →
      call.counted = false
  | _ => True

/-! ### What holds in every state -/

/-- The key whose expiry a call is about to set. -/
def State.due (state : State) (id : ℕ) : Option String :=
  ((state.calls id).filter Call.counted).map Call.key

/-- The key has no expiry. -/
def Lasting (db : Keyspace String ℕ) (key : String) : Prop :=
  ∃ value, db key = some ⟨value, none⟩

/-- Every key without an expiry has a call that is about to set it. -/
def Covered (db : Keyspace String ℕ) (due : ℕ → Option String) : Prop :=
  ∀ key, Lasting db key → ∃ id, due id = some key

structure Accounted (db : Keyspace String ℕ) (due : ℕ → Option String) : Prop where
  positive : ∀ key entry, db key = some entry → 0 < entry.value
  lasting : ∀ id key, due id = some key → Lasting db key
  single : ∀ id other key, due id = some key → due other = some key → id = other

theorem accounted_start : Accounted processes.start.db processes.start.due where
  positive := nofun
  lasting := nofun
  single := nofun

theorem due_eq_some_iff {state : State} {id : ℕ} {key : String} :
    state.due id = some key ↔
      ∃ call, state.calls id = some call ∧ call.counted = true ∧ call.key = key := by
  simp [State.due, Option.map_eq_some_iff, Option.filter_eq_some_iff, and_assoc]

/-- A key without an expiry is present at every moment. -/
theorem Lasting.live_eq {db : Keyspace String ℕ} {key : String} (h : Lasting db key) (now : ℕ) :
    ∃ value, live db now key = some ⟨value, none⟩ := by
  obtain ⟨value, hvalue⟩ := h
  exact ⟨value, live_eq_some_iff.mpr ⟨hvalue, nofun⟩⟩

/-- Without calls in progress, a key without an expiry was left behind. -/
theorem allExpire_iff_covered {state : State} (hidle : Idle state) :
    AllExpire state ↔ Covered state.db state.due := by
  have hdue : ∀ id key, state.due id ≠ some key := by
    intro id key hid
    obtain ⟨call, hcall, -⟩ := due_eq_some_iff.mp hid
    rw [hidle id] at hcall
    cases hcall
  constructor
  · intro h key hlasting
    obtain ⟨value, hvalue⟩ := hlasting.live_eq state.now
    exact absurd (h key _ hvalue) Bool.false_ne_true
  · rintro h key ⟨value, expireAt⟩ hentry
    cases expireAt with
    | some last => rfl
    | none =>
      obtain ⟨id, hid⟩ := h key ⟨value, (live_eq_some_iff.mp hentry).1⟩
      exact absurd hid (hdue id key)

/-! ### The commands -/

section Commands

variable {db : Keyspace String ℕ} {due : ℕ → Option String} {now : ℕ} {key : String}

/-- Two keyspaces that agree on a key. -/
theorem lasting_congr {db' : Keyspace String ℕ} {other : String} (h : db' other = db other) :
    Lasting db' other ↔ Lasting db other := by
  rw [Lasting, Lasting, h]

theorem lasting_incr_of_live {entry : Entry ℕ} (h : live db now key = some entry)
    (other : String) : Lasting (incr db now key).2 other ↔ Lasting db other := by
  by_cases heq : other = key
  · rw [heq, Lasting, Lasting, (incr_of_live h).2, (live_eq_some_iff.mp h).1]
    cases entry
    simp
  · exact lasting_congr (incr_of_ne db now heq)

theorem lasting_incr_of_absent (h : live db now key = none) (other : String) :
    Lasting (incr db now key).2 other ↔ other = key ∨ Lasting db other := by
  by_cases heq : other = key
  · rw [heq, Lasting, (incr_of_absent h).2]
    simp
  · rw [lasting_congr (incr_of_ne db now heq), or_iff_right heq]

theorem lasting_expire {entry : Entry ℕ} (seconds : ℕ) (h : live db now key = some entry)
    (other : String) :
    Lasting (expire db now key seconds) other ↔ other ≠ key ∧ Lasting db other := by
  by_cases heq : other = key
  · rw [heq, Lasting, expire_self seconds h]
    simp
  · rw [lasting_congr (expire_of_ne db now seconds heq), and_iff_right heq]

theorem Accounted.incr_positive (h : Accounted db due) (now : ℕ) (key other : String)
    (entry : Entry ℕ) (hentry : (incr db now key).2 other = some entry) : 0 < entry.value := by
  by_cases heq : other = key
  · rw [heq] at hentry
    cases hlive : live db now key with
    | none =>
      rw [(incr_of_absent hlive).2] at hentry
      cases hentry
      exact Nat.one_pos
    | some found =>
      rw [(incr_of_live hlive).2] at hentry
      cases hentry
      exact Nat.succ_pos _
  · rw [incr_of_ne db now heq] at hentry
    exact h.positive other entry hentry

/-- A counter that is present keeps its expiry, or goes on without one. -/
theorem Accounted.incr_of_live (h : Accounted db due) {entry : Entry ℕ}
    (hlive : live db now key = some entry) :
    Accounted (incr db now key).2 due ∧ (Covered (incr db now key).2 due ↔ Covered db due) := by
  have hlasting := lasting_incr_of_live hlive
  refine ⟨⟨h.incr_positive now key, fun id other hid ↦ ?_, h.single⟩, ?_⟩
  · exact (hlasting other).mpr (h.lasting id other hid)
  · exact forall_congr' fun other ↦ imp_congr (hlasting other) Iff.rfl

/-- No call is about to set the expiry of an absent key. -/
theorem Accounted.due_ne_of_absent (h : Accounted db due) (habsent : live db now key = none)
    (id : ℕ) : due id ≠ some key := by
  intro hid
  obtain ⟨value, hvalue⟩ := (h.lasting id key hid).live_eq now
  rw [habsent] at hvalue
  cases hvalue

/-- The counter is created, and its call learns of it. -/
theorem Accounted.incr_answered (h : Accounted db due) (habsent : live db now key = none) {id : ℕ}
    (hfree : due id = none) :
    Accounted (incr db now key).2 (Function.update due id (some key)) ∧
      (Covered (incr db now key).2 (Function.update due id (some key)) ↔ Covered db due) := by
  have hlasting := lasting_incr_of_absent habsent
  have hdue : ∀ other found, Function.update due id (some key) other = some found ↔
      (other = id ∧ key = found) ∨ due other = some found := by
    intro other found
    by_cases heq : other = id
    · simp [heq, hfree]
    · simp [heq]
  refine ⟨⟨h.incr_positive now key, fun other found hother ↦ ?_,
    fun other another found hother hanother ↦ ?_⟩, ?_⟩
  · rw [hlasting]
    rcases (hdue other found).mp hother with ⟨-, rfl⟩ | hother
    · exact Or.inl rfl
    · exact Or.inr (h.lasting other found hother)
  · rcases (hdue other found).mp hother with ⟨hid, hkey⟩ | hbefore
    · rcases (hdue another found).mp hanother with ⟨hid', -⟩ | hbefore'
      · exact hid.trans hid'.symm
      · exact absurd (hkey ▸ hbefore') (h.due_ne_of_absent habsent another)
    · rcases (hdue another found).mp hanother with ⟨-, hkey⟩ | hbefore'
      · exact absurd (hkey ▸ hbefore) (h.due_ne_of_absent habsent other)
      · exact h.single other another found hbefore hbefore'
  · constructor
    · intro hcovered found hfound
      obtain ⟨other, hother⟩ := hcovered found ((hlasting found).mpr (Or.inr hfound))
      rcases (hdue other found).mp hother with ⟨-, rfl⟩ | hother
      · obtain ⟨value, hvalue⟩ := hfound.live_eq now
        rw [habsent] at hvalue
        cases hvalue
      · exact ⟨other, hother⟩
    · intro hcovered found hfound
      rcases (hlasting found).mp hfound with rfl | hfound
      · exact ⟨id, Function.update_self _ _ _⟩
      · obtain ⟨other, hother⟩ := hcovered found hfound
        exact ⟨other, (hdue other found).mpr (Or.inr hother)⟩

/-- The counter is created, and no call learns of it. -/
theorem Accounted.incr_unanswered (h : Accounted db due) (habsent : live db now key = none) :
    Accounted (incr db now key).2 due ∧ ¬ Covered (incr db now key).2 due := by
  have hlasting := lasting_incr_of_absent habsent
  refine ⟨⟨h.incr_positive now key, fun id other hid ↦ ?_, h.single⟩, fun hcovered ↦ ?_⟩
  · exact (hlasting other).mpr (Or.inr (h.lasting id other hid))
  · obtain ⟨id, hid⟩ := hcovered key ((hlasting key).mpr (Or.inl rfl))
    exact h.due_ne_of_absent habsent id hid

/-- Calls that end before they have set an expiry leave their counters behind. -/
theorem Accounted.drop (h : Accounted db due) (due' : ℕ → Option String)
    (hdue : ∀ id key, due' id = some key → due id = some key) :
    Accounted db due' ∧
      (Covered db due' ↔ Covered db due ∧ ∀ id key, due id = some key → due' id = some key) := by
  refine ⟨⟨h.positive, fun id key hid ↦ h.lasting id key (hdue id key hid),
    fun id other key hid hother ↦ h.single id other key (hdue id key hid) (hdue other key hother)⟩,
    ?_⟩
  constructor
  · intro hcovered
    refine ⟨fun key hkey ↦ ?_, fun id key hid ↦ ?_⟩
    · obtain ⟨id, hid⟩ := hcovered key hkey
      exact ⟨id, hdue id key hid⟩
    · obtain ⟨other, hother⟩ := hcovered key (h.lasting id key hid)
      rwa [h.single id other key hid (hdue other key hother)]
  · rintro ⟨hcovered, hkept⟩ key hkey
    obtain ⟨id, hid⟩ := hcovered key hkey
    exact ⟨id, hkept id key hid⟩

/-- The expiry of a counter is set by its call. -/
theorem Accounted.expire (h : Accounted db due) {id : ℕ} (hid : due id = some key)
    (now seconds : ℕ) :
    Accounted (expire db now key seconds) (Function.update due id none) ∧
      (Covered (expire db now key seconds) (Function.update due id none) ↔ Covered db due) := by
  obtain ⟨value, hlive⟩ := (h.lasting id key hid).live_eq now
  have hlasting := lasting_expire seconds hlive
  have hdue : ∀ other found, Function.update due id none other = some found ↔
      found ≠ key ∧ due other = some found := by
    intro other found
    by_cases heq : other = id
    · rw [heq, Function.update_self, hid]
      simp [eq_comm]
    · rw [Function.update_of_ne heq]
      refine (and_iff_right_of_imp fun hother ↦ ?_).symm
      rintro rfl
      exact heq (h.single other id found hother hid)
  refine ⟨⟨fun other entry hentry ↦ ?_, fun other found hother ↦ ?_,
    fun other another found hother hanother ↦ ?_⟩, ?_⟩
  · by_cases heq : other = key
    · rw [heq, expire_self seconds hlive] at hentry
      cases hentry
      exact h.positive key ⟨value, none⟩ (live_eq_some_iff.mp hlive).1
    · rw [expire_of_ne db now seconds heq] at hentry
      exact h.positive other entry hentry
  · obtain ⟨hne, hother⟩ := (hdue other found).mp hother
    exact (hlasting found).mpr ⟨hne, h.lasting other found hother⟩
  · exact h.single other another found ((hdue other found).mp hother).2
      ((hdue another found).mp hanother).2
  · refine forall_congr' fun found ↦ ?_
    rw [hlasting]
    simp only [hdue, exists_and_left, and_imp]
    constructor
    · intro hcovered hfound
      by_cases heq : found = key
      · exact heq ▸ ⟨id, hid⟩
      · exact (hcovered heq hfound).2
    · exact fun hcovered hne hfound ↦ ⟨hne, hcovered hfound⟩

end Commands

/-! ### One step -/

section Steps

variable {state after : State}

theorem setCall_due (state : State) (id : ℕ) (call : Option Call) :
    (state.setCall id call).due =
      Function.update state.due id ((call.filter Call.counted).map Call.key) := by
  funext other
  by_cases heq : other = id
  · simp [State.due, State.setCall, heq]
  · simp [State.due, State.setCall, heq]

/-- A call that is about to set no expiry. -/
theorem due_eq_none {id : ℕ} (h : ∀ call, state.calls id = some call → call.counted = false) :
    state.due id = none := by
  rw [Option.eq_none_iff_forall_ne_some]
  intro key hkey
  obtain ⟨call, hcall, hcounted, -⟩ := due_eq_some_iff.mp hkey
  rw [h call hcall] at hcounted
  cases hcounted

theorem arrive_spec (h : Accounted state.db state.due) {id process clock : ℕ}
    {options : RateLimitOptions} {ip : Option String}
    (hstep : step state (.arrive id process options ip clock) = some after) :
    Accounted after.db after.due ∧ (Covered after.db after.due ↔
      Covered state.db state.due ∧ Finishes state (.arrive id process options ip clock)) := by
  simp only [step] at hstep
  split_ifs at hstep with hfresh
  rw [← Option.some.inj hstep, setCall_due]
  have hdue : state.due id = none := due_eq_none fun call hcall ↦ by simp [hcall] at hfresh
  have hsame : Function.update state.due id none = state.due := by
    rw [← hdue, Function.update_eq_self]
  show Accounted state.db (Function.update state.due id none) ∧
    (Covered state.db (Function.update state.due id none) ↔ _)
  rw [hsame]
  exact ⟨h, (and_iff_left trivial).symm⟩

/-- A call that ends without an expiry to set, whether or not its count was carried out. -/
theorem setCall_none_due {id : ℕ} (hfree : state.due id = none) (db : Keyspace String ℕ) :
    (({ state with db := db } : State).setCall id none).due = state.due := by
  rw [setCall_due]
  show Function.update state.due id none = state.due
  rw [← hfree, Function.update_eq_self]

theorem incr_spec (h : Accounted state.db state.due) {id : ℕ} {fate : Fate}
    (hstep : step state (.incr id fate) = some after) :
    Accounted after.db after.due ∧ (Covered after.db after.due ↔
      Covered state.db state.due ∧ Finishes state (.incr id fate)) := by
  cases hcall : state.calls id with
  | none => simp [step, hcall] at hstep
  | some call =>
    cases hcounted : call.counted with
    | true => simp [step, hcall, hcounted] at hstep
    | false =>
      have hfree : state.due id = none := due_eq_none fun found hfound ↦ by
        rw [hcall] at hfound
        exact Option.some.inj hfound ▸ hcounted
      have hdue := setCall_none_due hfree
      cases hlive : live state.db state.now call.key with
      | none =>
        have hone := (incr_of_absent hlive).1
        cases fate with
        | completes =>
          have hafter : ({ state with db := (incr state.db state.now call.key).2 } : State).setCall
              id (some { call with counted := true }) = after := by
            simpa [step, hcall, hcounted, hone, Fate.applied] using hstep
          rw [← hafter, setCall_due]
          have hkept := h.incr_answered hlive hfree
          exact ⟨hkept.1, hkept.2.trans (and_iff_left trivial).symm⟩
        | fails applied =>
          cases applied with
          | false =>
            have hafter : state.setCall id none = after := by
              simpa [step, hcall, hcounted, Fate.applied] using hstep
            rw [← hafter, hdue state.db]
            exact ⟨h, (and_iff_left trivial).symm⟩
          | true =>
            have hafter : ({ state with db := (incr state.db state.now call.key).2 } : State).setCall
                id none = after := by
              simpa [step, hcall, hcounted, Fate.applied] using hstep
            rw [← hafter, hdue]
            have hlost := h.incr_unanswered hlive
            refine ⟨hlost.1, iff_of_false hlost.2 fun hboth ↦ ?_⟩
            have hpresent := hboth.2 call hcall
            rw [hlive] at hpresent
            cases hpresent
      | some entry =>
        have hmore : (incr state.db state.now call.key).1 ≠ 1 := by
          have hpositive := h.positive call.key entry (live_eq_some_iff.mp hlive).1
          rw [(incr_of_live hlive).1]
          omega
        have hkept := h.incr_of_live hlive
        have hfinishes : Finishes state (.incr id fate) := by
          cases fate with
          | completes => trivial
          | fails applied =>
            cases applied with
            | false => trivial
            | true =>
              intro found hfound
              rw [hcall] at hfound
              rw [← Option.some.inj hfound, hlive]
              rfl
        rw [and_iff_left hfinishes]
        cases happlied : fate.applied with
        | true =>
          have hafter : ({ state with db := (incr state.db state.now call.key).2 } : State).setCall
              id none = after := by
            simpa [step, hcall, hcounted, hmore, happlied] using hstep
          rw [← hafter, hdue]
          exact hkept
        | false =>
          have hafter : state.setCall id none = after := by
            simpa [step, hcall, hcounted, hmore, happlied] using hstep
          rw [← hafter, hdue state.db]
          exact ⟨h, Iff.rfl⟩

theorem expire_spec (h : Accounted state.db state.due) {id : ℕ} {fate : Fate}
    (hstep : step state (.expire id fate) = some after) :
    Accounted after.db after.due ∧ (Covered after.db after.due ↔
      Covered state.db state.due ∧ Finishes state (.expire id fate)) := by
  cases hcall : state.calls id with
  | none => simp [step, hcall] at hstep
  | some call =>
    cases hcounted : call.counted with
    | false => simp [step, hcall, hcounted] at hstep
    | true =>
      have hid : state.due id = some call.key := due_eq_some_iff.mpr ⟨call, hcall, hcounted, rfl⟩
      cases happlied : fate.applied with
      | true =>
        have hfinishes : Finishes state (.expire id fate) := by
          cases fate with
          | completes => trivial
          | fails applied => rw [show applied = true from happlied]; trivial
        have hafter : ({ state with
            db := Foundation.ExpiringStore.expire state.db state.now call.key call.windowSeconds
          } : State).setCall id none = after := by
          simpa [step, hcall, hcounted, happlied] using hstep
        rw [← hafter, setCall_due, and_iff_left hfinishes]
        exact h.expire hid state.now call.windowSeconds
      | false =>
        have hfails : fate = .fails false := by
          cases fate with
          | completes => cases happlied
          | fails applied => rw [show applied = false from happlied]
        have hafter : state.setCall id none = after := by
          simpa [step, hcall, hcounted, happlied] using hstep
        rw [← hafter, setCall_due, hfails]
        have hdrop := h.drop (Function.update state.due id none) fun other key hother ↦ by
          by_cases heq : other = id
          · simp [heq] at hother
          · rwa [Function.update_of_ne heq] at hother
        refine ⟨hdrop.1, hdrop.2.trans (iff_of_false (fun hboth ↦ ?_) fun hboth ↦ hboth.2)⟩
        have hkept := hboth.2 id call.key hid
        simp at hkept

theorem stop_due (state : State) (process id : ℕ) (key : String) :
    ({ state with
        calls := fun id ↦ (state.calls id).filter fun call ↦ call.process ≠ process } : State).due id
      = some key ↔ state.due id = some key ∧
        ∀ call, state.calls id = some call → call.process ≠ process := by
  simp only [due_eq_some_iff, Option.filter_eq_some_iff, decide_eq_true_eq]
  constructor
  · rintro ⟨call, ⟨hcall, hprocess⟩, hdue⟩
    refine ⟨⟨call, hcall, hdue⟩, fun found hfound ↦ ?_⟩
    rw [hcall] at hfound
    exact Option.some.inj hfound ▸ hprocess
  · rintro ⟨⟨call, hcall, hdue⟩, hprocess⟩
    exact ⟨call, ⟨hcall, hprocess call hcall⟩, hdue⟩

theorem stop_spec (h : Accounted state.db state.due) {process : ℕ}
    (hstep : step state (.stop process) = some after) :
    Accounted after.db after.due ∧ (Covered after.db after.due ↔
      Covered state.db state.due ∧ Finishes state (.stop process)) := by
  rw [← Option.some.inj hstep]
  have hdrop := h.drop (State.due { state with
      calls := fun id ↦ (state.calls id).filter fun call ↦ call.process ≠ process })
    fun id key hid ↦ ((stop_due state process id key).mp hid).1
  refine ⟨hdrop.1, hdrop.2.trans (and_congr_right fun _ ↦ ?_)⟩
  constructor
  · intro hkept id call hcall hprocess
    by_contra hcounted
    have hid : state.due id = some call.key :=
      due_eq_some_iff.mpr ⟨call, hcall, (Bool.not_eq_false _).mp hcounted, rfl⟩
    exact ((stop_due state process id call.key).mp (hkept id call.key hid)).2 call hcall hprocess
  · intro hfinishes id key hid
    refine (stop_due state process id key).mpr ⟨hid, fun call hcall hprocess ↦ ?_⟩
    obtain ⟨found, hfound, hcounted, -⟩ := due_eq_some_iff.mp hid
    rw [hcall, Option.some.injEq] at hfound
    rw [← hfound, hfinishes id call hcall hprocess] at hcounted
    cases hcounted

/-- The step lemma: a step leaves a counter behind exactly when it does not finish. -/
theorem step_spec (h : Accounted state.db state.due) {action : Action}
    (hstep : step state action = some after) :
    Accounted after.db after.due ∧ (Covered after.db after.due ↔
      Covered state.db state.due ∧ Finishes state action) := by
  cases action with
  | arrive id process options ip clock => exact arrive_spec h hstep
  | incr id fate => exact incr_spec h hstep
  | expire id fate => exact expire_spec h hstep
  | stop process => exact stop_spec h hstep
  | tick ms =>
    rw [← Option.some.inj hstep]
    exact ⟨h, (and_iff_left trivial).symm⟩

end Steps

/-! ### Whole runs -/

/-- When no call is in progress, every counter that is present has an expiry exactly when every step
of the run finishes. -/
theorem allExpire_iff_meets (actions : List Action) (state : State)
    (hrun : processes.run actions = some state) (hidle : Idle state) :
    AllExpire state ↔ processes.Meets Finishes actions := by
  have hcovered : Covered processes.start.db processes.start.due := fun key ⟨_, hentry⟩ ↦ by
    cases hentry
  have hall := System.iff_meets (fun state ↦ Accounted state.db state.due)
    (fun state ↦ Covered state.db state.due) accounted_start hcovered
    (fun _ _ _ haccounted hstep ↦ step_spec haccounted hstep) hrun
  rw [allExpire_iff_covered hidle, hall.2]

/-- A request that creates a counter and sets its expiry. -/
def firstRequest : List Action :=
  [.arrive 0 0 (rateLimits .read) none 0, .incr 0 .completes, .expire 0 .completes]

theorem allExpire_firstRequest :
    ∃ state, processes.run firstRequest = some state ∧ Idle state ∧ AllExpire state := by
  have hmeets : processes.Meets Finishes firstRequest :=
    System.meets_of_forall fun action haction state ↦ by
      simp only [firstRequest, List.mem_cons, List.not_mem_nil, or_false] at haction
      rcases haction with rfl | rfl | rfl <;> exact trivial
  have hidle : ∀ state, processes.run firstRequest = some state → Idle state := by
    intro state hrun id
    rw [← Option.some.inj hrun]
    cases id with
    | zero => rfl
    | succ id => rfl
  exact ⟨_, rfl, hidle _ rfl, (allExpire_iff_meets firstRequest _ rfl (hidle _ rfl)).mpr hmeets⟩

/-- The process stops between the two commands of the request that created the counter. -/
theorem not_forall_allExpire :
    ¬ ∀ (actions : List Action) (state : State), processes.run actions = some state →
      Idle state → AllExpire state := by
  intro h
  have hstopped := h [.arrive 0 0 (rateLimits .read) none 0, .incr 0 .completes, .stop 0] _ rfl
  have hidle := hstopped fun id ↦ by
    cases id with
    | zero => rfl
    | succ id => rfl
  exact absurd (hidle (limiterKey "read" "unknown" 0) ⟨1, none⟩ rfl) Bool.false_ne_true

end FileForge.Api.WindowExpiry
