import FileForge.Api.Allowance

/-!
# What the limiter tells its clients

The headers of `createRateLimiter`, for calls in any number of processes at once. Every call is told
its `RateLimit-Remaining` from the count that it got, and the counts of one window are handed out
one by one: `headers_count_down` says that the calls of a client in a bucket and a window are told
`limit - 1`, `limit - 2` and so on down to zero, each number once and in the order in which they
were counted, and that `Retry-After` leads into another window. The first call of a window tells its
number only when its `EXPIRE` has been answered; until then the others may be told, and refused,
before it.
-/

set_option autoImplicit false
set_option relaxedAutoImplicit false

namespace FileForge.Api.AllowanceHeaders

open Foundation.ExpiringStore Foundation.Execution Limiter Allowance

/-! ### What a call is told -/

/-- What `RateLimit-Remaining` has said to a request that is passed on. A call that still waits for
its `EXPIRE` has set no header yet. -/
def told : Phase → Option ℕ
  | .decided _ (.admitted headers) => some headers.rateLimitRemaining
  | _ => none

def tells (left : ℕ) (phase : Phase) : Bool := told phase = some left

/-- What a call has said, or says once its `EXPIRE` is answered. -/
def due (limit : ℕ) : Phase → Option ℕ
  | .expiring _ => some (limit - 1)
  | phase => told phase

def isDue (limit left : ℕ) (phase : Phase) : Bool := due limit phase = some left

/-- Two calls count for one client in one bucket and one window. -/
def SameCounter (first second : Call) : Prop :=
  Asks second.traffic (clientKey second.ip) second.window first

/-- The numbers below the limit fall due one by one, from the limit down. -/
structure CountsDown (state : State) : Prop where
  once : ∀ traffic client window, ∀ left < (rateLimits traffic).limit,
    state.number traffic client window (isDue (rateLimits traffic).limit left) =
      if (rateLimits traffic).limit ≤
          state.number traffic client window Phase.isCounted + left then 1 else 0
  inOrder : ∀ first ∈ state.calls, ∀ second ∈ state.calls, SameCounter first second →
    ∀ less ∈ due first.options.limit first.phase, ∀ more ∈ due first.options.limit second.phase,
      less < more → ∀ early ∈ second.phase.moment, ∀ late ∈ first.phase.moment, early ≤ late
  decided : ∀ call ∈ state.calls, ∀ moment verdict, call.phase = .decided moment verdict →
    ∃ count, 0 < count ∧ verdict = verdictOn call.options count

section OnCount

variable (options : RateLimitOptions) (moment count : ℕ)

theorem due_decided : due options.limit (.decided moment (verdictOn options count)) =
    if count ≤ options.limit then some (options.limit - count) else none := by
  unfold verdictOn
  by_cases h : count ≤ options.limit
  · rw [if_neg (not_lt.mpr h), if_pos h]
    rfl
  · rw [if_pos (not_le.mp h), if_neg h]
    rfl

theorem due_onCount (hlimit : 0 < options.limit) :
    due options.limit (onCount options moment count) =
      if count ≤ options.limit then some (options.limit - count) else none := by
  unfold onCount
  split_ifs with hfirst hle hle
  · rw [hfirst]
    rfl
  · omega
  · rw [due_decided, if_pos hle]
  · rw [due_decided, if_neg hle]

theorem verdict_of_onCount {later : ℕ} {verdict : Verdict}
    (h : onCount options moment count = .decided later verdict) :
    verdict = verdictOn options count := by
  unfold onCount at h
  split_ifs at h
  exact (Phase.decided.inj h).2.symm

end OnCount

theorem countsDown_start (start : ℕ) : CountsDown (limiters start).start where
  once := by
    intro traffic client window left hleft
    rw [if_neg]
    · rfl
    · show ¬ (rateLimits traffic).limit ≤ 0 + left
      omega
  inOrder := fun _ hfirst ↦ absurd hfirst List.not_mem_nil
  decided := fun _ hcall ↦ absurd hcall List.not_mem_nil

/-! ### One step -/

section Steps

variable {state : State} {index : ℕ} {call : Call} {next : Phase × Keyspace String ℕ}

/-- A number that is due belongs to a count. -/
theorem CountsDown.limit_le (h : CountsDown state) {found : Call} (hfound : found ∈ state.calls)
    {left : ℕ} (hleft : left < found.options.limit)
    (hdue : due found.options.limit found.phase = some left) :
    found.options.limit ≤ state.number found.traffic (clientKey found.ip) found.window
      Phase.isCounted + left := by
  have hpos : 0 < state.number found.traffic (clientKey found.ip) found.window
      (isDue found.options.limit left) := by
    refine List.countP_pos_iff.mpr ⟨found, hfound, ?_⟩
    rw [Bool.and_eq_true, decide_eq_true_eq]
    exact ⟨⟨rfl, rfl, rfl⟩, decide_eq_true hdue⟩
  rw [show found.options = rateLimits found.traffic from rfl] at hleft hpos ⊢
  rw [h.once _ _ _ left hleft] at hpos
  by_contra hgreater
  rw [if_neg hgreater] at hpos
  exact absurd hpos (lt_irrefl 0)

theorem CountsDown.due_lt (h : CountsDown state) {found : Call} (hfound : found ∈ state.calls)
    {left : ℕ} (hdue : due found.options.limit found.phase = some left) :
    left < found.options.limit := by
  have hlimit : 0 < found.options.limit := rateLimits_limit_pos found.traffic
  cases hphase : found.phase with
  | counting =>
    rw [hphase] at hdue
    cases hdue
  | expiring moment =>
    rw [hphase] at hdue
    obtain rfl := Option.some.inj hdue
    exact Nat.sub_lt hlimit Nat.one_pos
  | decided moment verdict =>
    obtain ⟨count, hcount, rfl⟩ := h.decided found hfound moment verdict hphase
    rw [hphase, due_decided] at hdue
    split_ifs at hdue
    obtain rfl := Option.some.inj hdue
    exact Nat.sub_lt hlimit hcount

/-- A call that goes on leaves the numbers of other counters alone. -/
theorem CountsDown.once_goOn (h : CountsDown state) (hcall : state.calls[index]? = some call)
    (hown : ∀ left < call.options.limit,
      (state.goOn index call next).number call.traffic (clientKey call.ip) call.window
          (isDue call.options.limit left) =
        if call.options.limit ≤ (state.goOn index call next).number call.traffic
            (clientKey call.ip) call.window Phase.isCounted + left then 1 else 0) :
    ∀ traffic client window, ∀ left < (rateLimits traffic).limit,
      (state.goOn index call next).number traffic client window
          (isDue (rateLimits traffic).limit left) =
        if (rateLimits traffic).limit ≤ (state.goOn index call next).number traffic client window
            Phase.isCounted + left then 1 else 0 := by
  intro traffic client window left hleft
  by_cases hasks : Asks traffic client window call
  · obtain ⟨rfl, rfl, rfl⟩ := hasks
    exact hown left hleft
  · rw [number_goOn_of_not_asks hcall next hasks, number_goOn_of_not_asks hcall next hasks]
    exact h.once traffic client window left hleft

/-- The `INCR` of a call takes the next number. Assumes: it takes effect in the window of the
call. -/
theorem CountsDown.onIncr (h : CountsDown state) (haccounted : Accounted state)
    (hcall : state.calls[index]? = some call)
    (hpunctual : windowOf call.options state.now = call.window)
    (hnext : call.onIncr state.now state.db = some next) :
    CountsDown (state.goOn index call next) := by
  obtain ⟨hphase, hafter⟩ := onIncr_eq_some hnext
  obtain ⟨hanswer, -⟩ := incr_countsTo (haccounted.balanced call.traffic (clientKey call.ip)
    call.window).counter hpunctual
  have hlimit : 0 < call.options.limit := rateLimits_limit_pos call.traffic
  have hfirst : next.1 = onCount call.options state.now
      (state.number call.traffic (clientKey call.ip) call.window Phase.isCounted + 1) := by
    rw [hafter, ← hanswer]
    rfl
  have hdue := due_onCount call.options state.now
    (state.number call.traffic (clientKey call.ip) call.window Phase.isCounted + 1) hlimit
  rw [← hfirst] at hdue
  have hmoment : next.1.moment = some state.now := by
    rw [hfirst, onCount_moment]
  refine ⟨h.once_goOn hcall fun left hleft ↦ ?_, ?_, ?_⟩
  · have hcounted := number_enters next hcall hphase Phase.isCounted rfl
    have hnumber := number_enters next hcall hphase (isDue call.options.limit left) rfl
    have hbefore := h.once call.traffic (clientKey call.ip) call.window left hleft
    rw [hfirst, onCount_isCounted, if_pos rfl] at hcounted
    have hnew : isDue call.options.limit left next.1 = true ↔
        state.number call.traffic (clientKey call.ip) call.window Phase.isCounted + 1 + left =
          call.options.limit := by
      rw [isDue, hdue, decide_eq_true_eq]
      split_ifs with hle
      · rw [Option.some.injEq]
        omega
      · exact iff_of_false nofun fun heq ↦ hle (by omega)
    rw [show (rateLimits call.traffic).limit = call.options.limit from rfl] at hbefore
    rw [hcounted, hnumber, hbefore]
    simp only [hnew]
    split_ifs <;> omega
  · intro first hmemFirst second hmemSecond hsame less hless more hmore hlt early hearly late hlate
    rcases List.mem_or_eq_of_mem_set hmemFirst with hfirstOld | rfl
    · rcases List.mem_or_eq_of_mem_set hmemSecond with hsecondOld | rfl
      · exact h.inOrder first hfirstOld second hsecondOld hsame less hless more hmore hlt early
          hearly late hlate
      · -- The new number is below those that were due before.
        obtain ⟨htraffic, hclient, hwindow⟩ := hsame
        have hoptions : first.options = call.options := congrArg rateLimits htraffic
        have hle : call.options.limit ≤ state.number call.traffic (clientKey call.ip) call.window
            Phase.isCounted + less := by
          have hfound := h.limit_le hfirstOld (h.due_lt hfirstOld hless) hless
          rw [htraffic, hclient, show first.window = call.window from hwindow, hoptions] at hfound
          exact hfound
        rw [hoptions] at hmore
        have hnew := hdue.symm.trans hmore
        split_ifs at hnew with hcount
        have hvalue := Option.some.inj hnew
        omega
    · rw [show late = state.now from Option.some.inj (hlate.symm.trans hmoment)]
      rcases List.mem_or_eq_of_mem_set hmemSecond with hsecondOld | rfl
      · exact (haccounted.moments second hsecondOld early hearly).1
      · exact (Option.some.inj (hearly.symm.trans hmoment)).le
  · intro found hfound moment verdict hverdict
    rcases List.mem_or_eq_of_mem_set hfound with hold | rfl
    · exact h.decided found hold moment verdict hverdict
    · exact ⟨_, Nat.succ_pos _, verdict_of_onCount _ _ _ (hfirst.symm.trans hverdict)⟩

/-- The `EXPIRE` of a call changes nothing of what is due. -/
theorem CountsDown.onExpire (h : CountsDown state) (hcall : state.calls[index]? = some call)
    (hnext : call.onExpire state.now state.db = some next) :
    CountsDown (state.goOn index call next) := by
  obtain ⟨moment, hphase, hafter⟩ := onExpire_eq_some hnext
  have hlimit : 1 ≤ call.options.limit := rateLimits_limit_pos call.traffic
  have hdecided : next.1 = .decided moment (verdictOn call.options 1) := by
    rw [hafter]
  have hdue : due call.options.limit next.1 = due call.options.limit call.phase := by
    rw [hdecided, due_decided, if_pos hlimit, hphase]
    rfl
  have hmoment : next.1.moment = call.phase.moment := by
    rw [hdecided, hphase]
    rfl
  have hcounted : next.1.isCounted = call.phase.isCounted := by
    rw [hdecided, hphase]
    rfl
  have hkept : ∀ kind : Phase → Bool, kind next.1 = kind call.phase →
      (state.goOn index call next).number call.traffic (clientKey call.ip) call.window kind =
        state.number call.traffic (clientKey call.ip) call.window kind := by
    intro kind hkind
    have hnumber := number_goOn hcall next ⟨rfl, rfl, rfl⟩ kind
    rwa [hkind, Nat.add_right_cancel_iff] at hnumber
  refine ⟨h.once_goOn hcall fun left hleft ↦ ?_, ?_, ?_⟩
  · rw [hkept _ (congrArg (fun found ↦ decide (found = some left)) hdue), hkept _ hcounted]
    exact h.once call.traffic (clientKey call.ip) call.window left hleft
  · have hmem := List.mem_of_getElem? hcall
    intro first hmemFirst second hmemSecond hsame less hless more hmore hlt early hearly late hlate
    rcases List.mem_or_eq_of_mem_set hmemFirst with hfirst | rfl
    · rcases List.mem_or_eq_of_mem_set hmemSecond with hsecond | rfl
      · exact h.inOrder first hfirst second hsecond hsame less hless more hmore hlt early hearly
          late hlate
      · have hoptions : first.options = call.options := congrArg rateLimits hsame.1
        rw [hoptions] at hmore
        refine h.inOrder first hfirst call hmem hsame less hless more ?_ hlt early
          (hmoment.symm.trans hearly) late hlate
        rw [hoptions]
        exact hdue.symm.trans hmore
    · rcases List.mem_or_eq_of_mem_set hmemSecond with hsecond | rfl
      · exact h.inOrder call hmem second hsecond hsame less (hdue.symm.trans hless) more hmore hlt
          early hearly late (hmoment.symm.trans hlate)
      · exact (Option.some.inj (hearly.symm.trans hlate)).le
  · intro found hfound later verdict hverdict
    rcases List.mem_or_eq_of_mem_set hfound with hsame | rfl
    · exact h.decided found hsame later verdict hverdict
    · exact ⟨1, Nat.one_pos, (Phase.decided.inj (hdecided.symm.trans hverdict)).2.symm⟩

/-- Nothing is due for a new call. -/
theorem CountsDown.request (h : CountsDown state) (asked : TrafficClass) (ip : Option String)
    (clock : ℕ) :
    CountsDown { state with calls := state.calls ++ [⟨asked, ip, clock, .counting⟩] } := by
  refine ⟨fun traffic client window left hleft ↦ ?_, ?_, ?_⟩
  · have hnumber : ∀ kind : Phase → Bool, kind .counting = false →
        State.number { state with calls := state.calls ++ [⟨asked, ip, clock, .counting⟩] } traffic
          client window kind = state.number traffic client window kind := fun kind hkind ↦ by
      simp [State.number, hkind]
    rw [hnumber _ rfl, hnumber _ rfl]
    exact h.once traffic client window left hleft
  · intro first hmemFirst second hmemSecond hsame less hless more hmore
    rcases List.mem_append.mp hmemFirst with hfirst | hnew
    · rcases List.mem_append.mp hmemSecond with hsecond | hnew
      · exact h.inOrder first hfirst second hsecond hsame less hless more hmore
      · rw [List.mem_singleton.mp hnew] at hmore
        cases hmore
    · rw [List.mem_singleton.mp hnew] at hless
      cases hless
  · intro call hcall moment verdict hverdict
    rcases List.mem_append.mp hcall with hold | hnew
    · exact h.decided call hold moment verdict hverdict
    · rw [List.mem_singleton.mp hnew] at hverdict
      cases hverdict

theorem CountsDown.step {after : State} {action : Action} (h : CountsDown state)
    (haccounted : Accounted state) (hpunctual : Punctual state action)
    (hstep : step state action = some after) : CountsDown after := by
  cases action with
  | wait milliseconds =>
    obtain rfl := Option.some.inj hstep
    exact ⟨h.once, h.inOrder, h.decided⟩
  | request traffic ip clock =>
    obtain rfl := Option.some.inj hstep
    exact h.request traffic ip clock
  | incr index =>
    obtain ⟨call, hcall, hgoes⟩ := Option.bind_eq_some_iff.mp hstep
    obtain ⟨next, hnext, rfl⟩ := Option.map_eq_some_iff.mp hgoes
    exact h.onIncr haccounted hcall (hpunctual call hcall) hnext
  | expire index =>
    obtain ⟨call, hcall, hgoes⟩ := Option.bind_eq_some_iff.mp hstep
    obtain ⟨next, hnext, rfl⟩ := Option.map_eq_some_iff.mp hgoes
    exact h.onExpire hcall hnext

end Steps

/-! ### Whole runs -/

theorem countsDown_of_run {start : ℕ} {actions : List Action} {state : State}
    (hrun : (limiters start).run actions = some state)
    (hpunctual : (limiters start).Meets Punctual actions) :
    Accounted state ∧ CountsDown state := by
  refine System.run_induction_of_meets (motive := fun state ↦ Accounted state ∧ CountsDown state)
    ⟨accounted_start start, countsDown_start start⟩ ?_ hrun hpunctual
  intro state action after hstate hallowed hstep
  exact ⟨hstate.1.step hallowed hstep, hstate.2.step hstate.1 hallowed hstep⟩

/-- One window's length after a moment another window has begun. -/
theorem windowOf_lt {options : RateLimitOptions} (hpositive : 0 < options.windowSeconds)
    {moment later : ℕ} (h : moment + options.windowSeconds * 1000 ≤ later) :
    windowOf options moment < windowOf options later := by
  simp only [windowOf, Nat.div_div_eq_div_mul]
  have hlength : 0 < 1000 * options.windowSeconds := Nat.mul_pos (by decide) hpositive
  refine Nat.lt_of_succ_le ?_
  rw [Nat.succ_eq_add_one, ← Nat.add_div_right moment hlength, Nat.mul_comm 1000]
  exact Nat.div_le_div_right h

/-! ### What has been told -/

/-- What has been told was due. -/
theorem due_of_told {limit left : ℕ} {phase : Phase} (h : told phase = some left) :
    due limit phase = some left := by
  cases phase with
  | counting => cases h
  | expiring moment => cases h
  | decided moment verdict => exact h

/-- A count of what is of one kind or of another. -/
theorem countP_eq_add {Item : Type*} {kind first second : Item → Bool} {items : List Item}
    (h : ∀ item ∈ items, (if kind item then 1 else 0) =
      (if first item then 1 else 0) + if second item then 1 else 0) :
    items.countP kind = items.countP first + items.countP second := by
  induction items with
  | nil => rfl
  | cons item rest ih =>
    have hitem := h item List.mem_cons_self
    rw [List.countP_cons, List.countP_cons, List.countP_cons, hitem,
      ih fun other hother ↦ h other (List.mem_cons_of_mem item hother)]
    omega

/-- The number that the first call of a window has not said yet, as long as it waits. -/
def waiting (state : State) (traffic : TrafficClass) (client : String) (window left : ℕ) : ℕ :=
  if left + 1 = (rateLimits traffic).limit then
    state.number traffic client window Phase.isExpiring
  else 0

theorem number_isDue (state : State) (traffic : TrafficClass) (client : String)
    (window left : ℕ) :
    state.number traffic client window (isDue (rateLimits traffic).limit left) =
      state.number traffic client window (tells left) +
        waiting state traffic client window left := by
  have hlimit : 0 < (rateLimits traffic).limit := rateLimits_limit_pos traffic
  have hdue : ∀ phase, (if isDue (rateLimits traffic).limit left phase then 1 else 0) =
      (if tells left phase then 1 else 0) +
        if Phase.isExpiring phase ∧ left + 1 = (rateLimits traffic).limit then 1 else 0 := by
    intro phase
    cases phase with
    | counting => rfl
    | expiring moment =>
      have hsaid : tells left (.expiring moment) = false := rfl
      have hiff : isDue (rateLimits traffic).limit left (.expiring moment) = true ↔
          left + 1 = (rateLimits traffic).limit := by
        rw [isDue, due, decide_eq_true_eq, Option.some.injEq]
        omega
      rw [hsaid]
      simp [hiff, Phase.isExpiring]
    | decided moment verdict =>
      have hwaits : Phase.isExpiring (.decided moment verdict) = false := rfl
      simp only [hwaits, Bool.false_eq_true, false_and, if_false, Nat.add_zero]
      rfl
  rw [waiting]
  split_ifs with hlast
  · refine countP_eq_add fun call _ ↦ ?_
    have hphase := hdue call.phase
    simp only [hlast, and_true] at hphase
    by_cases hasks : Asks traffic client window call
    · simpa [hasks] using hphase
    · simp [hasks]
  · refine List.countP_congr fun call _ ↦ ?_
    have hphase := hdue call.phase
    simp only [hlast, and_false, if_false, Nat.add_zero] at hphase
    have hsame : isDue (rateLimits traffic).limit left call.phase = tells left call.phase := by
      cases hfirst : isDue (rateLimits traffic).limit left call.phase <;>
        cases hsecond : tells left call.phase <;> simp [hfirst, hsecond] at hphase ⊢
    rw [hsame]

/-- What a refused call is told, and why it was refused. -/
theorem refused_spec {state : State} (haccounted : Accounted state) (h : CountsDown state)
    {call : Call} (hcall : call ∈ state.calls) {moment retryAfter : ℕ} {headers : AllowanceHeaders}
    {message : String}
    (hphase : call.phase = .decided moment (.refused headers retryAfter message)) :
    headers = { rateLimitLimit := call.options.limit, rateLimitRemaining := 0 } ∧
      retryAfter = call.options.windowSeconds ∧
      call.options.limit < state.number call.traffic (clientKey call.ip) call.window
        Phase.isCounted := by
  obtain ⟨count, -, hverdict⟩ := h.decided call hcall moment _ hphase
  have hgreater : call.options.limit < count := by
    rw [← verdictOn_isRefused_iff, ← hverdict]
    trivial
  have hmany : 0 < state.number call.traffic (clientKey call.ip) call.window Phase.isRefused := by
    refine List.countP_pos_iff.mpr ⟨call, hcall, ?_⟩
    rw [Bool.and_eq_true, decide_eq_true_eq, hphase]
    exact ⟨⟨rfl, rfl, rfl⟩, decide_eq_true trivial⟩
  rw [(haccounted.balanced call.traffic (clientKey call.ip) call.window).refused] at hmany
  rw [verdictOn, if_pos hgreater, Verdict.refused.injEq] at hverdict
  obtain ⟨hheaders, hretry, -⟩ := hverdict
  refine ⟨?_, hretry, Nat.lt_of_sub_pos hmany⟩
  rw [hheaders, Nat.sub_eq_zero_of_le hgreater.le]

/-- What the calls of any number of processes tell their clients, while their commands are answered
or still under way. In every bucket and window a client is told each number below the limit once,
from the top down to what is left of the limit, but for the first of them, as long as the call that
is to tell it waits for its `EXPIRE`; and it is told them in the order in which its calls were
counted. When it is refused, it has been told every number with the same exception; it is told that
none is left, and what it sends after the time of `Retry-After` is counted in a later window.
Assumes: an `INCR` takes effect in the window its call computed. -/
theorem headers_count_down (start : ℕ) (actions : List Action) (state : State)
    (hrun : (limiters start).run actions = some state)
    (hpunctual : (limiters start).Meets Punctual actions) :
    (∀ traffic client window, ∀ left < (rateLimits traffic).limit,
      state.number traffic client window (tells left) +
          waiting state traffic client window left =
        if (rateLimits traffic).limit ≤
            state.number traffic client window Phase.isCounted + left then 1 else 0) ∧
    (∀ first ∈ state.calls, ∀ second ∈ state.calls, SameCounter first second →
      ∀ less ∈ told first.phase, ∀ more ∈ told second.phase, less < more →
        ∀ early ∈ second.phase.moment, ∀ late ∈ first.phase.moment, early ≤ late) ∧
    ∀ call ∈ state.calls, ∀ moment headers retryAfter message,
      call.phase = .decided moment (.refused headers retryAfter message) →
        headers = { rateLimitLimit := call.options.limit, rateLimitRemaining := 0 } ∧
        (∀ left < call.options.limit,
          state.number call.traffic (clientKey call.ip) call.window (tells left) +
            waiting state call.traffic (clientKey call.ip) call.window left = 1) ∧
        ∀ other ∈ state.calls, other.traffic = call.traffic →
          ∀ later ∈ other.phase.moment, moment + retryAfter * 1000 ≤ later →
            call.window < other.window := by
  obtain ⟨haccounted, h⟩ := countsDown_of_run hrun hpunctual
  refine ⟨fun traffic client window left hleft ↦ ?_, fun first hfirst second hsecond hsame less
    hless more hmore ↦ ?_, fun call hcall moment headers retryAfter message hphase ↦ ?_⟩
  · rw [← number_isDue]
    exact h.once traffic client window left hleft
  · exact h.inOrder first hfirst second hsecond hsame less (due_of_told hless) more
      (due_of_told hmore)
  · obtain ⟨hheaders, rfl, hcounted⟩ := refused_spec haccounted h hcall hphase
    refine ⟨hheaders, fun left hleft ↦ ?_, fun other hother htraffic later hlater hwaited ↦ ?_⟩
    · rw [← number_isDue]
      exact (h.once call.traffic (clientKey call.ip) call.window left hleft).trans
        (if_pos (hcounted.le.trans (Nat.le_add_right _ _)))
    · have hmoment : moment ∈ call.phase.moment := by
        rw [hphase]
        rfl
      have hoptions : other.options = call.options := congrArg rateLimits htraffic
      rw [← (haccounted.moments call hcall moment hmoment).2,
        ← (haccounted.moments other hother later hlater).2, hoptions]
      exact windowOf_lt (rateLimits_windowSeconds_pos call.traffic) hwaited

/-- Two uploads of one client, the first of which still waits for its `EXPIRE`. -/
theorem headers_count_down_twoUploads :
    ∃ state, (limiters 0).run [.request .upload (some "::1") 5, .request .upload (some "::1") 7,
      .incr 1, .incr 0] = some state ∧
        waiting state .upload "::1" 0 19 = 1 ∧
        ∀ left < 20, state.number .upload "::1" 0 (tells left) +
            waiting state .upload "::1" 0 left =
          if 20 ≤ state.number .upload "::1" 0 Phase.isCounted + left then 1 else 0 :=
  ⟨_, rfl, by decide, (headers_count_down 0 [.request .upload (some "::1") 5,
    .request .upload (some "::1") 7, .incr 1, .incr 0] _ rfl meets_twoUploads).1 .upload "::1" 0⟩

end FileForge.Api.AllowanceHeaders
