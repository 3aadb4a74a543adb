import FileForge.Api.Limiter
import FileForge.Foundation.Execution

/-!
# What the limiter admits

The calls of `createRateLimiter` that several API processes make on one Redis. A call computes its
window from the clock of its process, sends `INCR` and, when the answer is one, `EXPIRE`; between
the two, and before the first, every other call may take its own steps, and any time may pass.
Here no command fails, and every call has a Redis.

`Punctual` is the assumption that an `INCR` takes effect in the window its call computed. Under it
`Accounted` holds in every state: each counter stands at the number of the calls it has counted, and
as many of them are passed on as the limit allows. `admits_allowance` is what follows for the calls
of one client in one bucket and one window, and for those of one client in one bucket within any
`windowSeconds` seconds.
-/

set_option autoImplicit false
set_option relaxedAutoImplicit false

namespace FileForge.Api.Allowance

open Foundation.ExpiringStore Foundation.Execution Limiter

/-! ### Calls in flight -/

/-- Where a call of the limiter stands. -/
inductive Phase
  /-- `INCR` has been sent. -/
  | counting
  /-- `INCR` has answered one, at `moment`, and `EXPIRE` has been sent. -/
  | expiring (moment : ℕ)
  /-- The commands have answered, `INCR` at `moment`. -/
  | decided (moment : ℕ) (verdict : Verdict)
  deriving DecidableEq, Repr

/-- One call of the middleware: the limiter it belongs to, the address Express found, and what
`Date.now()` returned in its process. -/
structure Call where
  traffic : TrafficClass
  ip : Option String
  clock : ℕ
  phase : Phase
  deriving DecidableEq, Repr

def Call.options (call : Call) : RateLimitOptions := rateLimits call.traffic

def Call.window (call : Call) : ℕ := windowOf call.options call.clock

def Call.key (call : Call) : String :=
  limiterKey call.options.bucket (clientKey call.ip) call.window

/-- Redis, its clock, and the calls in the order of their beginning. -/
structure State where
  now : ℕ
  db : Keyspace String ℕ
  calls : List Call

inductive Action
  | wait (milliseconds : ℕ)
  /-- A request reaches a limiter in a process whose clock shows `clock`. -/
  | request (traffic : TrafficClass) (ip : Option String) (clock : ℕ)
  /-- The `INCR` of a call takes effect. -/
  | incr (index : ℕ)
  /-- The `EXPIRE` of a call takes effect. -/
  | expire (index : ℕ)
  deriving DecidableEq, Repr

/-- What a call does with its count: the first one of a window sets the expiry. -/
def onCount (options : RateLimitOptions) (moment count : ℕ) : Phase :=
  if count = 1 then .expiring moment else .decided moment (verdictOn options count)

/-- `INCR` takes effect and answers. -/
def Call.onIncr (call : Call) (now : ℕ) (db : Keyspace String ℕ) :
    Option (Phase × Keyspace String ℕ) :=
  match call.phase with
  | .counting =>
    let counted := incr db now call.key
    some (onCount call.options now counted.1, counted.2)
  | _ => none

/-- `EXPIRE` takes effect and answers; the count was one. -/
def Call.onExpire (call : Call) (now : ℕ) (db : Keyspace String ℕ) :
    Option (Phase × Keyspace String ℕ) :=
  match call.phase with
  | .expiring moment => some (.decided moment (verdictOn call.options 1),
      expire db now call.key call.options.windowSeconds)
  | _ => none

/-- The call with the given number goes on. -/
def State.goOn (state : State) (index : ℕ) (call : Call) (next : Phase × Keyspace String ℕ) :
    State :=
  { state with db := next.2, calls := state.calls.set index { call with phase := next.1 } }

def step (state : State) : Action → Option State
  | .wait milliseconds => some { state with now := state.now + milliseconds }
  | .request traffic ip clock =>
    some { state with calls := state.calls ++ [⟨traffic, ip, clock, .counting⟩] }
  | .incr index => state.calls[index]?.bind fun call ↦
    (call.onIncr state.now state.db).map (state.goOn index call)
  | .expire index => state.calls[index]?.bind fun call ↦
    (call.onExpire state.now state.db).map (state.goOn index call)

/-- The limiters of all processes, on a Redis without counters. -/
def limiters (start : ℕ) : System State Action := ⟨⟨start, empty, []⟩, step⟩

/-- An `INCR` takes effect in the window its call computed. -/
def Punctual (state : State) : Action → Prop
  | .incr index => ∀ call ∈ state.calls[index]?, windowOf call.options state.now = call.window
  | _ => True

/-- A call whose commands take effect at once, with nothing between them, is the call of the
middleware. -/
theorem createRateLimiter_eq {call : Call} {now : ℕ} (hphase : call.phase = .counting)
    (hclock : call.clock = now) (db : Keyspace String ℕ) :
    ∃ next, call.onIncr now db = some next ∧
      (some next = some (.decided now (createRateLimiter true call.options {} call.ip now db).1,
          (createRateLimiter true call.options {} call.ip now db).2) ∨
        Call.onExpire { call with phase := next.1 } now next.2 =
          some (.decided now (createRateLimiter true call.options {} call.ip now db).1,
            (createRateLimiter true call.options {} call.ip now db).2)) := by
  have hkey : limiterKey call.options.bucket (clientKey call.ip) (windowOf call.options now) =
      call.key := by
    rw [Call.key, Call.window, hclock]
  rw [Call.onIncr, hphase]
  refine ⟨_, rfl, ?_⟩
  simp only [createRateLimiter, Bool.true_eq_false, Bool.false_eq_true, if_false, onCount, hkey]
  by_cases hfirst : (incr db now call.key).1 = 1
  · simp only [hfirst]
    exact Or.inr rfl
  · simp only [if_neg hfirst]
    exact Or.inl trivial

/-! ### The number of calls of a kind -/

/-- The call counts towards the client's requests in the bucket and the window. -/
def Asks (traffic : TrafficClass) (client : String) (window : ℕ) (call : Call) : Prop :=
  call.traffic = traffic ∧ clientKey call.ip = client ∧ call.window = window

instance (traffic : TrafficClass) (client : String) (window : ℕ) (call : Call) :
    Decidable (Asks traffic client window call) :=
  inferInstanceAs (Decidable (_ ∧ _ ∧ _))

/-- The moment at which `INCR` took effect. -/
def Phase.moment : Phase → Option ℕ
  | .counting => none
  | .expiring moment => some moment
  | .decided moment _ => some moment

def Phase.isCounted : Phase → Bool
  | .counting => false
  | _ => true

def Phase.isExpiring : Phase → Bool
  | .expiring _ => true
  | _ => false

/-- The request was passed on. -/
def Phase.isPassed : Phase → Bool
  | .decided _ verdict => !decide verdict.IsRefused
  | _ => false

/-- The request got a `429`. -/
def Phase.isRefused : Phase → Bool
  | .decided _ verdict => decide verdict.IsRefused
  | _ => false

/-- How many calls of the client in the bucket and the window are of a kind. -/
def State.number (state : State) (traffic : TrafficClass) (client : String) (window : ℕ)
    (kind : Phase → Bool) : ℕ :=
  state.calls.countP fun call ↦ Asks traffic client window call && kind call.phase

/-- A count when one item has changed. -/
theorem countP_set_add {Item : Type*} (kind : Item → Bool) {items : List Item} {index : ℕ}
    {before : Item} (after : Item) (hitem : items[index]? = some before) :
    (items.set index after).countP kind + (if kind before then 1 else 0) =
      items.countP kind + (if kind after then 1 else 0) := by
  obtain ⟨hbound, hbefore⟩ := List.getElem?_eq_some_iff.mp hitem
  rw [List.countP_set hbound, hbefore]
  by_cases hkind : kind before = true
  · have hpos : 0 < items.countP kind :=
      List.countP_pos_iff.mpr ⟨before, List.mem_of_getElem? hitem, hkind⟩
    rw [if_pos hkind]
    omega
  · rw [if_neg hkind]
    omega

section Number

variable {state : State} {index : ℕ} {call : Call}

/-- The call that goes on is counted as what it was and as what it is. -/
theorem number_goOn (hcall : state.calls[index]? = some call) (next : Phase × Keyspace String ℕ)
    {traffic : TrafficClass} {client : String} {window : ℕ}
    (hasks : Asks traffic client window call) (kind : Phase → Bool) :
    (state.goOn index call next).number traffic client window kind +
        (if kind call.phase then 1 else 0) =
      state.number traffic client window kind + (if kind next.1 then 1 else 0) := by
  have hafter : Asks traffic client window { call with phase := next.1 } := hasks
  have hset := countP_set_add
    (fun call : Call ↦ Asks traffic client window call && kind call.phase)
    { call with phase := next.1 } hcall
  simp only [hasks, hafter, decide_true, Bool.true_and] at hset
  exact hset

/-- The calls of other counters stay as they are. -/
theorem number_goOn_of_not_asks (hcall : state.calls[index]? = some call)
    (next : Phase × Keyspace String ℕ) {traffic : TrafficClass} {client : String} {window : ℕ}
    (hasks : ¬ Asks traffic client window call) (kind : Phase → Bool) :
    (state.goOn index call next).number traffic client window kind =
      state.number traffic client window kind := by
  have hafter : ¬ Asks traffic client window { call with phase := next.1 } := hasks
  have hset := countP_set_add
    (fun call : Call ↦ Asks traffic client window call && kind call.phase)
    { call with phase := next.1 } hcall
  simp only [hasks, hafter, decide_false, Bool.false_and, Bool.false_eq_true, if_false,
    Nat.add_zero] at hset
  exact hset

end Number

/-! ### What holds in every state -/

/-- The counter stands at the number of calls it has counted, and as many of them are passed on, or
wait for their `EXPIRE`, as the limit allows. -/
structure Balanced (state : State) (traffic : TrafficClass) (client : String) (window : ℕ) :
    Prop where
  counter : CountsTo (rateLimits traffic) client window state.db
    (state.number traffic client window Phase.isCounted)
  passed : state.number traffic client window Phase.isPassed +
      state.number traffic client window Phase.isExpiring =
    min (state.number traffic client window Phase.isCounted) (rateLimits traffic).limit
  refused : state.number traffic client window Phase.isRefused =
    state.number traffic client window Phase.isCounted - (rateLimits traffic).limit

structure Accounted (state : State) : Prop where
  balanced : ∀ traffic client window, Balanced state traffic client window
  /-- A call was counted in its window. -/
  moments : ∀ call ∈ state.calls, ∀ moment ∈ call.phase.moment,
    moment ≤ state.now ∧ windowOf call.options moment = call.window

theorem accounted_start (start : ℕ) : Accounted (limiters start).start where
  balanced := fun _ _ _ ↦
    ⟨Or.inl ⟨rfl, rfl⟩, (Nat.zero_min _).symm, (Nat.zero_sub _).symm⟩
  moments := fun _ hcall ↦ absurd hcall List.not_mem_nil

theorem Accounted.wait {state : State} (h : Accounted state) (milliseconds : ℕ) :
    Accounted { state with now := state.now + milliseconds } where
  balanced := fun traffic client window ↦
    ⟨(h.balanced traffic client window).counter, (h.balanced traffic client window).passed,
      (h.balanced traffic client window).refused⟩
  moments := fun call hcall moment hmoment ↦
    ⟨(h.moments call hcall moment hmoment).1.trans (Nat.le_add_right _ _),
      (h.moments call hcall moment hmoment).2⟩

/-- The numbers of a counter that has not changed. -/
theorem Balanced.of_number {state after : State} {traffic : TrafficClass} {client : String}
    {window : ℕ} (h : Balanced state traffic client window)
    (hkey : after.db (limiterKey (rateLimits traffic).bucket client window) =
      state.db (limiterKey (rateLimits traffic).bucket client window))
    (hnumber : ∀ kind : Phase → Bool, kind .counting = false →
      after.number traffic client window kind = state.number traffic client window kind) :
    Balanced after traffic client window where
  counter := by
    rw [hnumber _ rfl]
    exact h.counter.congr hkey
  passed := by
    rw [hnumber _ rfl, hnumber _ rfl, hnumber _ rfl]
    exact h.passed
  refused := by
    rw [hnumber _ rfl, hnumber _ rfl]
    exact h.refused

theorem Accounted.request {state : State} (h : Accounted state) (asked : TrafficClass)
    (ip : Option String) (clock : ℕ) :
    Accounted { state with calls := state.calls ++ [⟨asked, ip, clock, .counting⟩] } where
  balanced := fun traffic client window ↦ by
    refine (h.balanced traffic client window).of_number rfl fun kind hkind ↦ ?_
    simp [State.number, hkind]
  moments := fun call hcall moment hmoment ↦ by
    rcases List.mem_append.mp hcall with hold | hnew
    · exact h.moments call hold moment hmoment
    · rw [List.mem_singleton.mp hnew] at hmoment
      cases hmoment

/-- A call that goes on leaves the counters of other keys alone. -/
theorem Balanced.goOn_of_not_asks {state : State} {index : ℕ} {call : Call}
    {traffic : TrafficClass} {client : String} {window : ℕ}
    (h : Balanced state traffic client window) (hcall : state.calls[index]? = some call)
    {next : Phase × Keyspace String ℕ}
    (hframe : ∀ other, other ≠ call.key → next.2 other = state.db other)
    (hasks : ¬ Asks traffic client window call) :
    Balanced (state.goOn index call next) traffic client window := by
  refine h.of_number (hframe _ fun hkey ↦ hasks ?_) fun kind _ ↦
    number_goOn_of_not_asks hcall next hasks kind
  obtain ⟨htraffic, hclient, hwindow⟩ := rateLimits_key_injective hkey
  exact ⟨htraffic.symm, hclient.symm, hwindow.symm⟩

/-- The moments of the calls when one of them has been counted in its window. -/
theorem moments_goOn {state : State} {index : ℕ} {call : Call}
    (h : ∀ call ∈ state.calls, ∀ moment ∈ call.phase.moment,
      moment ≤ state.now ∧ windowOf call.options moment = call.window)
    {next : Phase × Keyspace String ℕ} (hnext : ∀ moment ∈ next.1.moment,
      moment ≤ state.now ∧ windowOf call.options moment = call.window) :
    ∀ other ∈ (state.goOn index call next).calls, ∀ moment ∈ other.phase.moment,
      moment ≤ (state.goOn index call next).now ∧
        windowOf other.options moment = other.window := by
  intro other hother moment hmoment
  rcases List.mem_or_eq_of_mem_set hother with hold | hnew
  · exact h other hold moment hmoment
  · rw [hnew] at hmoment
    rw [hnew]
    exact hnext moment hmoment

theorem onIncr_eq_some {call : Call} {now : ℕ} {db : Keyspace String ℕ}
    {next : Phase × Keyspace String ℕ} (h : call.onIncr now db = some next) :
    call.phase = .counting ∧ next = (onCount call.options now (incr db now call.key).1,
      (incr db now call.key).2) := by
  cases hphase : call.phase with
  | counting =>
    rw [Call.onIncr, hphase] at h
    exact ⟨rfl, (Option.some.inj h).symm⟩
  | expiring moment => simp [Call.onIncr, hphase] at h
  | decided moment verdict => simp [Call.onIncr, hphase] at h

theorem onExpire_eq_some {call : Call} {now : ℕ} {db : Keyspace String ℕ}
    {next : Phase × Keyspace String ℕ} (h : call.onExpire now db = some next) :
    ∃ moment, call.phase = .expiring moment ∧
      next = (.decided moment (verdictOn call.options 1),
        expire db now call.key call.options.windowSeconds) := by
  cases hphase : call.phase with
  | counting => simp [Call.onExpire, hphase] at h
  | expiring moment =>
    rw [Call.onExpire, hphase] at h
    exact ⟨moment, rfl, (Option.some.inj h).symm⟩
  | decided moment verdict => simp [Call.onExpire, hphase] at h

section OnCount

variable (options : RateLimitOptions) (moment count : ℕ)

@[simp] theorem onCount_moment : (onCount options moment count).moment = some moment := by
  unfold onCount
  split_ifs <;> rfl

@[simp] theorem onCount_isCounted : (onCount options moment count).isCounted = true := by
  unfold onCount
  split_ifs <;> rfl

@[simp] theorem onCount_isExpiring :
    (onCount options moment count).isExpiring = true ↔ count = 1 := by
  unfold onCount
  split_ifs with h
  · exact iff_of_true rfl h
  · exact iff_of_false Bool.false_ne_true h

@[simp] theorem decided_isPassed :
    (Phase.decided moment (verdictOn options count)).isPassed = true ↔
      count ≤ options.limit := by
  simp [Phase.isPassed]

@[simp] theorem decided_isRefused :
    (Phase.decided moment (verdictOn options count)).isRefused = true ↔
      options.limit < count := by
  simp [Phase.isRefused]

@[simp] theorem onCount_isPassed : (onCount options moment count).isPassed = true ↔
    count ≠ 1 ∧ count ≤ options.limit := by
  unfold onCount
  split_ifs with h
  · exact iff_of_false Bool.false_ne_true fun hboth ↦ hboth.1 h
  · rw [decided_isPassed, and_iff_right h]

@[simp] theorem onCount_isRefused : (onCount options moment count).isRefused = true ↔
    count ≠ 1 ∧ options.limit < count := by
  unfold onCount
  split_ifs with h
  · exact iff_of_false Bool.false_ne_true fun hboth ↦ hboth.1 h
  · rw [decided_isRefused, and_iff_right h]

end OnCount

section Steps

variable {state : State} {index : ℕ} {call : Call} {next : Phase × Keyspace String ℕ}

/-- A call that goes on enters the numbers of its new phase. Assumes: a kind that its old phase was
not of. -/
theorem number_enters (next : Phase × Keyspace String ℕ)
    (hcall : state.calls[index]? = some call) {before : Phase} (hbefore : call.phase = before)
    (kind : Phase → Bool) (hkind : kind before = false) :
    (state.goOn index call next).number call.traffic (clientKey call.ip) call.window kind =
      state.number call.traffic (clientKey call.ip) call.window kind +
        (if kind next.1 then 1 else 0) := by
  have hnumber := number_goOn hcall next ⟨rfl, rfl, rfl⟩ kind
  rw [hbefore, hkind, if_neg Bool.false_ne_true, Nat.add_zero] at hnumber
  exact hnumber

/-- Assumes: a kind that the old phase was of. -/
theorem number_leaves (next : Phase × Keyspace String ℕ)
    (hcall : state.calls[index]? = some call) {before : Phase} (hbefore : call.phase = before)
    (kind : Phase → Bool) (hkind : kind before = true) :
    (state.goOn index call next).number call.traffic (clientKey call.ip) call.window kind + 1 =
      state.number call.traffic (clientKey call.ip) call.window kind +
        (if kind next.1 then 1 else 0) := by
  have hnumber := number_goOn hcall next ⟨rfl, rfl, rfl⟩ kind
  rw [hbefore, hkind, if_pos rfl] at hnumber
  exact hnumber

/-- The `INCR` of a call at its own counter: it answers the number of the calls counted so far, and
one. -/
theorem Balanced.onIncr (h : Balanced state call.traffic (clientKey call.ip) call.window)
    (hcall : state.calls[index]? = some call)
    (hpunctual : windowOf call.options state.now = call.window)
    (hnext : call.onIncr state.now state.db = some next) :
    Balanced (state.goOn index call next) call.traffic (clientKey call.ip) call.window := by
  obtain ⟨hphase, hafter⟩ := onIncr_eq_some hnext
  obtain ⟨hanswer, hstands⟩ := incr_countsTo h.counter hpunctual
  have hfirst : next.1 = onCount (rateLimits call.traffic) state.now
      (state.number call.traffic (clientKey call.ip) call.window Phase.isCounted + 1) := by
    rw [hafter, ← hanswer]
    rfl
  have hcounted := number_enters next hcall hphase Phase.isCounted rfl
  have hexpiring := number_enters next hcall hphase Phase.isExpiring rfl
  have hpassed := number_enters next hcall hphase Phase.isPassed rfl
  have hrefused := number_enters next hcall hphase Phase.isRefused rfl
  simp only [hfirst, onCount_isCounted, onCount_isExpiring, onCount_isPassed, onCount_isRefused,
    if_true] at hcounted hexpiring hpassed hrefused
  have hlimit := rateLimits_limit_pos call.traffic
  have hpassedBefore := h.passed
  have hrefusedBefore := h.refused
  refine ⟨?_, ?_, ?_⟩
  · rw [hcounted]
    show CountsTo _ _ _ next.2 _
    rw [hafter]
    exact hstands
  · rw [hcounted, hpassed, hexpiring]
    split_ifs <;> omega
  · rw [hcounted, hrefused]
    split_ifs <;> omega

/-- The `EXPIRE` of a call at its own counter: the count was one, so the request is passed on. -/
theorem Balanced.onExpire (h : Balanced state call.traffic (clientKey call.ip) call.window)
    (hcall : state.calls[index]? = some call)
    (hmoments : ∀ moment ∈ call.phase.moment,
      moment ≤ state.now ∧ windowOf call.options moment = call.window)
    (hnext : call.onExpire state.now state.db = some next) :
    Balanced (state.goOn index call next) call.traffic (clientKey call.ip) call.window := by
  obtain ⟨moment, hphase, hafter⟩ := onExpire_eq_some hnext
  have hmoment : moment ∈ call.phase.moment := by
    rw [hphase]
    rfl
  obtain ⟨hlater, hwindow⟩ := hmoments moment hmoment
  have hfirst : next.1 = .decided moment (verdictOn (rateLimits call.traffic) 1) := by
    rw [hafter]
    rfl
  have hcounted := number_leaves next hcall hphase Phase.isCounted rfl
  have hexpiring := number_leaves next hcall hphase Phase.isExpiring rfl
  have hpassed := number_enters next hcall hphase Phase.isPassed rfl
  have hrefused := number_enters next hcall hphase Phase.isRefused rfl
  have hlimit : 1 ≤ (rateLimits call.traffic).limit := rateLimits_limit_pos call.traffic
  simp only [hfirst, decided_isPassed, decided_isRefused, Nat.not_lt.mpr hlimit, hlimit,
    Phase.isCounted, Phase.isExpiring, Bool.false_eq_true, if_false, if_true, Nat.add_zero,
    Nat.add_right_cancel_iff] at hcounted hexpiring hpassed hrefused
  have hpassedBefore := h.passed
  refine ⟨?_, ?_, ?_⟩
  · rw [hcounted]
    show CountsTo _ _ _ next.2 _
    rw [hafter]
    exact expire_countsTo (rateLimits_windowSeconds_pos call.traffic) h.counter hwindow hlater
  · rw [hcounted, hpassed]
    omega
  · rw [hcounted, hrefused]
    exact h.refused

/-- A call that goes on leaves the state accounted for: its own counter balances, the others are
left alone, and it was counted in its window. -/
theorem Accounted.goOn (h : Accounted state) (hcall : state.calls[index]? = some call)
    (hbalanced : Balanced (state.goOn index call next) call.traffic (clientKey call.ip) call.window)
    (hframe : ∀ other, other ≠ call.key → next.2 other = state.db other)
    (hmoments : ∀ moment ∈ next.1.moment,
      moment ≤ state.now ∧ windowOf call.options moment = call.window) :
    Accounted (state.goOn index call next) where
  balanced := by
    intro traffic client window
    by_cases hasks : Asks traffic client window call
    · obtain ⟨rfl, rfl, rfl⟩ := hasks
      exact hbalanced
    · exact (h.balanced traffic client window).goOn_of_not_asks hcall hframe hasks
  moments := moments_goOn h.moments hmoments

/-- The step lemma. Assumes: an `INCR` takes effect in the window of its call. -/
theorem Accounted.step {after : State} {action : Action} (h : Accounted state)
    (hpunctual : Punctual state action) (hstep : step state action = some after) :
    Accounted after := by
  cases action with
  | wait milliseconds =>
    obtain rfl := Option.some.inj hstep
    exact h.wait milliseconds
  | request traffic ip clock =>
    obtain rfl := Option.some.inj hstep
    exact h.request traffic ip clock
  | incr index =>
    obtain ⟨call, hcall, hgoes⟩ := Option.bind_eq_some_iff.mp hstep
    obtain ⟨next, hnext, rfl⟩ := Option.map_eq_some_iff.mp hgoes
    have hwindow := hpunctual call hcall
    obtain ⟨hphase, hafter⟩ := onIncr_eq_some hnext
    refine h.goOn hcall ((h.balanced _ _ _).onIncr hcall hwindow hnext) (fun other hother ↦ ?_)
      fun moment hmoment ↦ ?_
    · rw [hafter]
      exact incr_of_ne state.db state.now hother
    · rw [hafter, onCount_moment] at hmoment
      obtain rfl := Option.some.inj hmoment
      exact ⟨le_rfl, hwindow⟩
  | expire index =>
    obtain ⟨call, hcall, hgoes⟩ := Option.bind_eq_some_iff.mp hstep
    obtain ⟨next, hnext, rfl⟩ := Option.map_eq_some_iff.mp hgoes
    have hmoments := h.moments call (List.mem_of_getElem? hcall)
    obtain ⟨moment, hphase, hafter⟩ := onExpire_eq_some hnext
    refine h.goOn hcall ((h.balanced _ _ _).onExpire hcall hmoments hnext) (fun other hother ↦ ?_)
      fun later hmoment ↦ hmoments later ?_
    · rw [hafter]
      exact expire_of_ne state.db state.now _ hother
    · rw [hafter] at hmoment
      rwa [hphase]

end Steps

theorem accounted_of_run {start : ℕ} {actions : List Action} {state : State}
    (hrun : (limiters start).run actions = some state)
    (hpunctual : (limiters start).Meets Punctual actions) : Accounted state :=
  System.run_induction_of_meets (accounted_start start)
    (fun _ _ _ hstate hallowed hstep ↦ hstate.step hallowed hstep) hrun hpunctual

/-! ### The allowance -/

/-- The commands of the call have answered. -/
def Phase.isDecided : Phase → Bool
  | .decided _ _ => true
  | _ => false

/-- How many requests of the client in the bucket there are in the window. -/
def State.asked (state : State) (traffic : TrafficClass) (client : String) (window : ℕ) : ℕ :=
  state.calls.countP fun call ↦ Asks traffic client window call

/-- How many requests of one client in one bucket were passed on, of those with a time in the
interval. -/
def State.passedWithin (state : State) (traffic : TrafficClass) (client : String)
    (time : Call → ℕ) (first last : ℕ) : ℕ :=
  state.calls.countP fun call ↦ call.traffic = traffic ∧ clientKey call.ip = client ∧
    call.phase.isPassed = true ∧ first ≤ time call ∧ time call ≤ last

/-- The moment of Redis at which a call was counted. -/
def Call.countedAt (call : Call) : ℕ := call.phase.moment.getD 0

/-- What the limiter owes the client of one bucket in one window. -/
structure Allows (state : State) (traffic : TrafficClass) (client : String) (window : ℕ) :
    Prop where
  /-- Of the requests, as many are passed on as the limit allows, and the others get a `429`. -/
  settled : (∀ call ∈ state.calls, Asks traffic client window call →
      call.phase.isDecided = true) →
    state.number traffic client window Phase.isPassed =
        min (state.asked traffic client window) (rateLimits traffic).limit ∧
      state.number traffic client window Phase.isRefused =
        state.asked traffic client window - (rateLimits traffic).limit
  /-- While calls are in flight, the same holds of those whose `INCR` has answered. -/
  inFlight : state.number traffic client window Phase.isPassed +
        state.number traffic client window Phase.isExpiring =
      min (state.number traffic client window Phase.isCounted) (rateLimits traffic).limit ∧
    state.number traffic client window Phase.isRefused =
      state.number traffic client window Phase.isCounted - (rateLimits traffic).limit
  /-- No counter is reset before its window ends. -/
  kept : 0 < state.number traffic client window Phase.isCounted →
    ∀ now, windowOf (rateLimits traffic) now = window →
      get state.db now (limiterKey (rateLimits traffic).bucket client window) =
        some (state.number traffic client window Phase.isCounted)

theorem Accounted.allows {state : State} (h : Accounted state) (traffic : TrafficClass)
    (client : String) (window : ℕ) : Allows state traffic client window where
  settled := by
    intro hdecided
    have hkinds : ∀ call ∈ state.calls, Asks traffic client window call →
        call.phase.isCounted = true ∧ call.phase.isExpiring = false := by
      intro call hcall hasks
      have hphase := hdecided call hcall hasks
      cases hcase : call.phase with
      | counting =>
        rw [hcase] at hphase
        cases hphase
      | expiring moment =>
        rw [hcase] at hphase
        cases hphase
      | decided moment verdict => exact ⟨rfl, rfl⟩
    have hcounted : state.number traffic client window Phase.isCounted =
        state.asked traffic client window := by
      refine List.countP_congr fun call hcall ↦ ?_
      simp only [Bool.and_eq_true, decide_eq_true_eq]
      exact and_iff_left_of_imp fun hasks ↦ (hkinds call hcall hasks).1
    have hexpiring : state.number traffic client window Phase.isExpiring = 0 := by
      refine List.countP_eq_zero.mpr fun call hcall ↦ ?_
      simp only [Bool.and_eq_true, decide_eq_true_eq]
      rintro ⟨hasks, hexpiring⟩
      rw [(hkinds call hcall hasks).2] at hexpiring
      cases hexpiring
    have hpassed := (h.balanced traffic client window).passed
    rw [hcounted, hexpiring, Nat.add_zero] at hpassed
    refine ⟨hpassed, ?_⟩
    rw [(h.balanced traffic client window).refused, hcounted]
  inFlight :=
    ⟨(h.balanced traffic client window).passed, (h.balanced traffic client window).refused⟩
  kept := by
    intro hpos now hwindow
    obtain ⟨hzero, -⟩ | ⟨entry, hentry, hvalue, -, halive⟩ :=
      (h.balanced traffic client window).counter
    · exact absurd hzero hpos.ne'
    · show (live _ _ _).map Entry.value = _
      rw [live_eq_some_iff.mpr ⟨hentry, halive now hwindow⟩, Option.map_some, hvalue]

/-- An interval of one window's length touches two windows. -/
theorem window_of_within {options : RateLimitOptions} (hpositive : 0 < options.windowSeconds)
    {first time : ℕ} (hfirst : first ≤ time)
    (hlast : time ≤ first + options.windowSeconds * 1000) :
    windowOf options time = windowOf options first ∨
      windowOf options time = windowOf options first + 1 := by
  simp only [windowOf, Nat.div_div_eq_div_mul]
  have hlength : 0 < 1000 * options.windowSeconds := Nat.mul_pos (by decide) hpositive
  have hbelow : first / (1000 * options.windowSeconds) ≤ time / (1000 * options.windowSeconds) :=
    Nat.div_le_div_right hfirst
  have habove : time / (1000 * options.windowSeconds) ≤
      first / (1000 * options.windowSeconds) + 1 := by
    rw [← Nat.add_div_right first hlength, Nat.mul_comm 1000]
    exact Nat.div_le_div_right hlast
  omega

theorem countP_le_add {Item : Type*} {kind first second : Item → Bool} {items : List Item}
    (h : ∀ item ∈ items, kind item = true → first item = true ∨ second item = true) :
    items.countP kind ≤ items.countP first + items.countP second := by
  induction items with
  | nil => exact Nat.zero_le _
  | cons item rest ih =>
    have hrest := ih fun other hother ↦ h other (List.mem_cons_of_mem item hother)
    have hitem := h item List.mem_cons_self
    rw [List.countP_cons, List.countP_cons, List.countP_cons]
    by_cases hkind : kind item = true
    · rw [if_pos hkind]
      rcases hitem hkind with hfirst | hsecond
      · rw [if_pos hfirst]
        omega
      · rw [if_pos hsecond]
        omega
    · rw [if_neg hkind]
      omega

/-- The calls of one window that were passed on are no more than its limit. -/
theorem Balanced.passed_le {state : State} {traffic : TrafficClass} {client : String} {window : ℕ}
    (h : Balanced state traffic client window) :
    state.number traffic client window Phase.isPassed ≤ (rateLimits traffic).limit := by
  have hpassed := h.passed
  omega

/-- Assumes: a time in the window of the call, for every call that was passed on. -/
theorem Accounted.passedWithin_le {state : State} (h : Accounted state) (traffic : TrafficClass)
    (client : String) {time : Call → ℕ}
    (htime : ∀ call ∈ state.calls, call.phase.isPassed = true →
      windowOf call.options (time call) = call.window) (first : ℕ) :
    state.passedWithin traffic client time first
      (first + (rateLimits traffic).windowSeconds * 1000) ≤ 2 * (rateLimits traffic).limit := by
  have hwindows : state.passedWithin traffic client time first
      (first + (rateLimits traffic).windowSeconds * 1000) ≤
        state.number traffic client (windowOf (rateLimits traffic) first) Phase.isPassed +
          state.number traffic client (windowOf (rateLimits traffic) first + 1)
            Phase.isPassed := by
    refine countP_le_add fun call hcall hkind ↦ ?_
    obtain ⟨htraffic, hclient, hpassed, hfirst, hlast⟩ := of_decide_eq_true hkind
    have hwindow := htime call hcall hpassed
    rw [Call.options, htraffic] at hwindow
    simp only [Bool.and_eq_true, decide_eq_true_eq, hpassed, and_true]
    rcases window_of_within (rateLimits_windowSeconds_pos traffic) hfirst hlast with hsame | hnext
    · exact Or.inl ⟨htraffic, hclient, hwindow.symm.trans hsame⟩
    · exact Or.inr ⟨htraffic, hclient, hwindow.symm.trans hnext⟩
  have hfirst := (h.balanced traffic client (windowOf (rateLimits traffic) first)).passed_le
  have hsecond := (h.balanced traffic client (windowOf (rateLimits traffic) first + 1)).passed_le
  omega

/-- The limiter admits exactly its allowance: any number of calls in any number of processes, with
any client strings, their commands in any order and at any times. Assumes: an `INCR` takes effect in
the window its call computed. -/
theorem admits_allowance (start : ℕ) (actions : List Action) (state : State)
    (hrun : (limiters start).run actions = some state)
    (hpunctual : (limiters start).Meets Punctual actions) (traffic : TrafficClass)
    (client : String) (window : ℕ) :
    Allows state traffic client window ∧
      (∀ other client' window', limiterKey (rateLimits other).bucket client' window' =
          limiterKey (rateLimits traffic).bucket client window →
        other = traffic ∧ client' = client ∧ window' = window) ∧
      ∀ first,
        state.passedWithin traffic client Call.clock first
            (first + (rateLimits traffic).windowSeconds * 1000) ≤
          2 * (rateLimits traffic).limit ∧
        state.passedWithin traffic client Call.countedAt first
            (first + (rateLimits traffic).windowSeconds * 1000) ≤
          2 * (rateLimits traffic).limit := by
  have haccounted := accounted_of_run hrun hpunctual
  refine ⟨haccounted.allows traffic client window,
    fun _ _ _ hkey ↦ rateLimits_key_injective hkey, fun first ↦ ⟨?_, ?_⟩⟩
  · exact haccounted.passedWithin_le traffic client (fun _ _ _ ↦ rfl) first
  · refine haccounted.passedWithin_le traffic client (fun call hcall hpassed ↦ ?_) first
    cases hphase : call.phase with
    | counting =>
      rw [hphase] at hpassed
      cases hpassed
    | expiring moment =>
      rw [hphase] at hpassed
      cases hpassed
    | decided moment verdict =>
      have hmoment : moment ∈ call.phase.moment := by
        rw [hphase]
        rfl
      have hcounted : call.countedAt = moment := by
        rw [Call.countedAt, hphase]
        rfl
      rw [hcounted]
      exact (haccounted.moments call hcall moment hmoment).2

/-- Two uploads of one client in two processes are counted in the other order. -/
theorem meets_twoUploads : (limiters 0).Meets Punctual
    [.request .upload (some "::1") 5, .request .upload (some "::1") 7, .incr 1, .incr 0] := by
  have hrequests : (limiters 0).Meets Punctual
      [.request .upload (some "::1") 5, .request .upload (some "::1") 7] := by
    refine System.meets_of_forall fun action haction state ↦ ?_
    simp only [List.mem_cons, List.not_mem_nil, or_false] at haction
    rcases haction with rfl | rfl
    · trivial
    · trivial
  have hfirst : (limiters 0).Meets Punctual ([.request .upload (some "::1") 5,
      .request .upload (some "::1") 7] ++ [.incr 1]) := by
    refine hrequests.concat fun state hstate call hcall ↦ ?_
    obtain rfl := Option.some.inj hstate
    obtain rfl := Option.some.inj hcall
    rfl
  have hsecond : (limiters 0).Meets Punctual ([.request .upload (some "::1") 5,
      .request .upload (some "::1") 7, .incr 1] ++ [.incr 0]) := by
    refine hfirst.concat fun state hstate call hcall ↦ ?_
    obtain rfl := Option.some.inj hstate
    obtain rfl := Option.some.inj hcall
    rfl
  exact hsecond

/-- Two uploads of one client in two processes, counted in the other order and before the expiry of
their counter is set. -/
theorem allows_interleaved :
    ∃ state, (limiters 0).run [.request .upload (some "::1") 5, .request .upload (some "::1") 7,
      .incr 1, .incr 0, .wait 3, .expire 1] = some state ∧ Allows state .upload "::1" 0 := by
  have hwaited : (limiters 0).Meets Punctual ([.request .upload (some "::1") 5,
      .request .upload (some "::1") 7, .incr 1, .incr 0] ++ [.wait 3]) :=
    meets_twoUploads.concat fun _ _ ↦ trivial
  have hexpired : (limiters 0).Meets Punctual ([.request .upload (some "::1") 5,
      .request .upload (some "::1") 7, .incr 1, .incr 0, .wait 3] ++ [.expire 1]) :=
    hwaited.concat fun _ _ ↦ trivial
  exact ⟨_, rfl, (admits_allowance 0 [.request .upload (some "::1") 5,
    .request .upload (some "::1") 7, .incr 1, .incr 0, .wait 3, .expire 1] _ rfl hexpired .upload
    "::1" 0).1⟩

end FileForge.Api.Allowance
