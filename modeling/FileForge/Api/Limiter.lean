import FileForge.Foundation.EcmaText
import FileForge.Foundation.ExpiringStore

/-!
# The rate limiter

`src/ratelimit.ts`. A fixed-window counter: a request counts itself in the Redis key of its bucket,
client and window, the request that finds the count at one sets the key's expiry, and a count above
the limit is refused. The limiter fails open: without Redis, or when a command fails, the request
is let through.

`createRateLimiter` is one call of the middleware at one moment, with the commands that fail in it
(`Outage`). `rateLimits` is the table `RATE_LIMITS`.

Two counters have two keys, whatever the client string (`limiterKey_injective`): a bucket has no
colon, and neither has the number of a window. `CountsTo` is the state of one counter inside its
window. Its two commands keep it (`incr_countsTo`, `expire_countsTo`), because the expiry is set
after the first request was counted and so reaches the end of the window (`window_end_le_expiry`);
`createRateLimiter_countsTo` is the call that runs both at once.
-/

set_option autoImplicit false
set_option relaxedAutoImplicit false

namespace FileForge.Api.Limiter

open Foundation.EcmaText Foundation.ExpiringStore

/-! ### The limiter of the source -/

/-- `RateLimitOptions`. -/
structure RateLimitOptions where
  limit : ℕ
  windowSeconds : ℕ
  bucket : String
  deriving DecidableEq, Repr

/-- The kinds of traffic with an allowance of their own. -/
inductive TrafficClass
  | read
  | upload
  | job
  | status
  deriving DecidableEq, Repr

/-- `RATE_LIMITS`. -/
def rateLimits : TrafficClass → RateLimitOptions
  | .read => { limit := 120, windowSeconds := 60, bucket := "read" }
  | .upload => { limit := 20, windowSeconds := 60, bucket := "upload" }
  | .job => { limit := 40, windowSeconds := 60, bucket := "job" }
  | .status => { limit := 300, windowSeconds := 60, bucket := "status" }

/-- `clientKey`: the address Express found for the request. -/
def clientKey (ip : Option String) : String := ip.getD "unknown"

/-- The number of the window a moment falls in. -/
def windowOf (options : RateLimitOptions) (now : ℕ) : ℕ := now / 1000 / options.windowSeconds

/-- The Redis key of a bucket, a client and a window. -/
def limiterKey (bucket client : String) (window : ℕ) : String :=
  "ratelimit:" ++ bucket ++ ":" ++ client ++ ":" ++ toString window

/-- The commands that fail during one call of the limiter. -/
structure Outage where
  incr : Bool := false
  expire : Bool := false
  deriving DecidableEq, Repr

/-- The headers that tell the client its allowance. -/
structure AllowanceHeaders where
  rateLimitLimit : ℕ
  rateLimitRemaining : ℕ
  deriving DecidableEq, Repr

/-- What one call of the limiter does with the request. -/
inductive Verdict
  /-- `next()` without a count: Redis is absent or failing. -/
  | unlimited
  /-- `next()` within the allowance. -/
  | admitted (headers : AllowanceHeaders)
  /-- `429`, `rate_limited`. -/
  | refused (headers : AllowanceHeaders) (retryAfter : ℕ) (message : String)
  deriving DecidableEq, Repr

/-- The verdict on a count. -/
def verdictOn (options : RateLimitOptions) (count : ℕ) : Verdict :=
  let headers := { rateLimitLimit := options.limit, rateLimitRemaining := options.limit - count }
  if count > options.limit then
    .refused headers options.windowSeconds
      s!"Too many requests. Try again in {options.windowSeconds} seconds."
  else .admitted headers

/-- `createRateLimiter`: one call of the middleware at the moment `now`. -/
def createRateLimiter (redis : Bool) (options : RateLimitOptions) (outage : Outage)
    (ip : Option String) (now : ℕ) (db : Keyspace String ℕ) : Verdict × Keyspace String ℕ :=
  if redis = false then (.unlimited, db) else
    let key := limiterKey options.bucket (clientKey ip) (windowOf options now)
    if outage.incr = true then (.unlimited, db) else
      let counted := incr db now key
      if counted.1 = 1 then
        -- The counter is already stored when its expiry cannot be set.
        if outage.expire = true then (.unlimited, counted.2)
        else (verdictOn options counted.1, expire counted.2 now key options.windowSeconds)
      else (verdictOn options counted.1, counted.2)

/-- The verdict sends `429`. -/
def Verdict.IsRefused : Verdict → Prop
  | .refused _ _ _ => True
  | _ => False

instance : DecidablePred Verdict.IsRefused
  | .refused _ _ _ => .isTrue trivial
  | .unlimited => .isFalse not_false
  | .admitted _ => .isFalse not_false

@[simp] theorem verdictOn_isRefused_iff (options : RateLimitOptions) (count : ℕ) :
    (verdictOn options count).IsRefused ↔ options.limit < count := by
  unfold verdictOn
  by_cases h : count > options.limit
  · simp [h, Verdict.IsRefused]
  · simp [h, Verdict.IsRefused]

/-! ### Keys and windows -/

theorem colon_not_mem_window (window : ℕ) : ':' ∉ (toString window).toList := by
  intro hmem
  rw [Nat.toString_eq_repr, Nat.toList_repr] at hmem
  have hdigit := Nat.isDigit_of_mem_toDigits (by decide) (by decide) hmem
  revert hdigit
  decide

theorem toString_window_injective : Function.Injective fun window : ℕ ↦ toString window := by
  intro first second h
  have hdigits : Nat.toDigits 10 first = Nat.toDigits 10 second := by
    have hlist := congrArg String.toList h
    simpa only [Nat.toString_eq_repr, Nat.toList_repr] using hlist
  have hnumber := congrArg (Nat.ofDigitChars 10 · 0) hdigits
  simpa only [Nat.ofDigitChars_toDigits (Nat.lt_of_sub_eq_succ rfl) le_rfl] using hnumber

/-- The key of a counter determines the bucket, the client and the window. Assumes: no bucket has a
colon; the client string may have any number of them. -/
theorem limiterKey_injective {bucket other client client' : String} {window window' : ℕ}
    (hbucket : ':' ∉ bucket.toList) (hother : ':' ∉ other.toList)
    (h : limiterKey bucket client window = limiterKey other client' window') :
    bucket = other ∧ client = client' ∧ window = window' := by
  have hchars : bucket.toList ++ ':' :: (client.toList ++ ':' :: (toString window).toList) =
      other.toList ++ ':' :: (client'.toList ++ ':' :: (toString window').toList) := by
    have hlist := congrArg String.toList h
    simpa [limiterKey, String.toList_append, List.append_assoc] using hlist
  obtain ⟨hbucketEq, hrest⟩ := eq_of_first_separator hbucket hother hchars
  obtain ⟨hclient, hwindow⟩ :=
    eq_of_last_separator (colon_not_mem_window window) (colon_not_mem_window window') hrest
  exact ⟨String.toList_injective hbucketEq, String.toList_injective hclient,
    toString_window_injective (String.toList_injective hwindow)⟩

theorem rateLimits_windowSeconds (traffic : TrafficClass) :
    (rateLimits traffic).windowSeconds = 60 := by
  cases traffic <;> rfl

theorem rateLimits_windowSeconds_pos (traffic : TrafficClass) :
    0 < (rateLimits traffic).windowSeconds := by
  rw [rateLimits_windowSeconds]
  decide

theorem rateLimits_limit_pos (traffic : TrafficClass) : 0 < (rateLimits traffic).limit := by
  cases traffic <;> decide

theorem rateLimits_bucket_injective {first second : TrafficClass}
    (h : (rateLimits first).bucket = (rateLimits second).bucket) : first = second := by
  cases first <;> cases second <;> first | rfl | simp [rateLimits] at h

theorem colon_not_mem_bucket (traffic : TrafficClass) :
    ':' ∉ (rateLimits traffic).bucket.toList := by
  cases traffic <;> simp [rateLimits]

/-- Two counters of the table have two keys. -/
theorem rateLimits_key_injective {traffic other : TrafficClass} {client client' : String}
    {window window' : ℕ}
    (h : limiterKey (rateLimits traffic).bucket client window =
      limiterKey (rateLimits other).bucket client' window') :
    traffic = other ∧ client = client' ∧ window = window' := by
  obtain ⟨hbucket, hrest⟩ :=
    limiterKey_injective (colon_not_mem_bucket traffic) (colon_not_mem_bucket other) h
  exact ⟨rateLimits_bucket_injective hbucket, hrest⟩

/-- An expiry set inside a window reaches past every moment of the window. Assumes: a positive
window length and two moments of one window. -/
theorem window_end_le_expiry {options : RateLimitOptions} (hpositive : 0 < options.windowSeconds)
    {first now : ℕ} (hwindow : windowOf options first = windowOf options now) :
    now ≤ first + options.windowSeconds * 1000 := by
  simp only [windowOf, Nat.div_div_eq_div_mul] at hwindow
  have hlength : 0 < 1000 * options.windowSeconds :=
    Nat.mul_pos (by decide) hpositive
  have hnow := Nat.lt_div_mul_add hlength (a := now)
  have hfirst := Nat.div_mul_le_self first (1000 * options.windowSeconds)
  rw [← hwindow] at hnow
  rw [Nat.mul_comm options.windowSeconds 1000]
  omega

/-! ### One counter inside its window -/

/-- The counter of a bucket, client and window stands at `count`: it does not exist at zero, and
otherwise it stays readable for the rest of the window. -/
def CountsTo (options : RateLimitOptions) (client : String) (window : ℕ) (db : Keyspace String ℕ)
    (count : ℕ) : Prop :=
  (count = 0 ∧ db (limiterKey options.bucket client window) = none) ∨
    ∃ entry, db (limiterKey options.bucket client window) = some entry ∧ entry.value = count ∧
      0 < count ∧ ∀ now, windowOf options now = window → entry.Alive now

/-- A counter depends on its own key only. -/
theorem CountsTo.congr {options : RateLimitOptions} {client : String} {window count : ℕ}
    {db db' : Keyspace String ℕ} (h : CountsTo options client window db count)
    (hkey : db' (limiterKey options.bucket client window) =
      db (limiterKey options.bucket client window)) :
    CountsTo options client window db' count := by
  unfold CountsTo at h ⊢
  rw [hkey]
  exact h

/-- A call of the limiter touches only its own key. -/
theorem createRateLimiter_of_ne (redis : Bool) (options : RateLimitOptions) (outage : Outage)
    (ip : Option String) (now : ℕ) (db : Keyspace String ℕ) {other : String}
    (h : other ≠ limiterKey options.bucket (clientKey ip) (windowOf options now)) :
    (createRateLimiter redis options outage ip now db).2 other = db other := by
  simp only [createRateLimiter]
  split_ifs
  · rfl
  · rfl
  · exact incr_of_ne db now h
  · exact (expire_of_ne _ now options.windowSeconds h).trans (incr_of_ne db now h)
  · exact incr_of_ne db now h

/-- The `INCR` of a call. Assumes: a counter that stands at `count` and a moment of its window. The
command answers `count + 1` and leaves the counter there. -/
theorem incr_countsTo {options : RateLimitOptions} {client : String} {window count now : ℕ}
    {db : Keyspace String ℕ} (hcount : CountsTo options client window db count)
    (hwindow : windowOf options now = window) :
    (incr db now (limiterKey options.bucket client window)).1 = count + 1 ∧
      CountsTo options client window
        (incr db now (limiterKey options.bucket client window)).2 (count + 1) := by
  obtain ⟨rfl, habsent⟩ | ⟨entry, hentry, rfl, hcountPos, halive⟩ := hcount
  · obtain ⟨hone, hstored⟩ := incr_of_absent (live_of_none now habsent)
    refine ⟨hone, Or.inr ⟨_, hstored, rfl, Nat.one_pos, fun later _ ↦ ?_⟩⟩
    simp [Entry.Alive]
  · have hlive : live db now (limiterKey options.bucket client window) = some entry :=
      live_eq_some_iff.mpr ⟨hentry, halive now hwindow⟩
    obtain ⟨hsucc, hstored⟩ := incr_of_live hlive
    exact ⟨hsucc, Or.inr ⟨_, hstored, rfl, Nat.succ_pos _, fun later h ↦ halive later h⟩⟩

/-- The `EXPIRE` of a call. Assumes: a positive window length, a counter that stands at `count`, and
a moment that is not before one of the window. The counter stays where it is. -/
theorem expire_countsTo {options : RateLimitOptions} (hpositive : 0 < options.windowSeconds)
    {client : String} {window count counted now : ℕ} {db : Keyspace String ℕ}
    (hcount : CountsTo options client window db count)
    (hwindow : windowOf options counted = window) (hlater : counted ≤ now) :
    CountsTo options client window
      (expire db now (limiterKey options.bucket client window) options.windowSeconds) count := by
  cases hlive : live db now (limiterKey options.bucket client window) with
  | none =>
    refine hcount.congr ?_
    rw [expire, hlive]
  | some found =>
    have hstored := (live_eq_some_iff.mp hlive).1
    obtain ⟨-, habsent⟩ | ⟨entry, hentry, hvalue, hcountPos, -⟩ := hcount
    · rw [habsent] at hstored
      cases hstored
    · obtain rfl : found = entry := Option.some.inj (hstored.symm.trans hentry)
      refine Or.inr ⟨_, expire_self options.windowSeconds hlive, hvalue, hcountPos,
        fun moment hmoment ↦ ?_⟩
      have hend : moment ≤ counted + options.windowSeconds * 1000 :=
        window_end_le_expiry hpositive (hwindow.trans hmoment.symm)
      have hreach : moment ≤ now + options.windowSeconds * 1000 :=
        hend.trans (Nat.add_le_add_right hlater _)
      simpa [Entry.Alive] using hreach

/-- The step of a working limiter. Assumes: a positive window length, a counter that stands at
`count` and a moment of its window. The call decides on `count + 1` and leaves the counter
there. -/
theorem createRateLimiter_countsTo {options : RateLimitOptions}
    (hpositive : 0 < options.windowSeconds) {ip : Option String} {window count now : ℕ}
    {db : Keyspace String ℕ} (hcount : CountsTo options (clientKey ip) window db count)
    (hwindow : windowOf options now = window) :
    (createRateLimiter true options {} ip now db).1 = verdictOn options (count + 1) ∧
      CountsTo options (clientKey ip) window (createRateLimiter true options {} ip now db).2
        (count + 1) := by
  subst hwindow
  obtain ⟨hcounted, hstands⟩ := incr_countsTo hcount rfl
  simp only [createRateLimiter, Bool.true_eq_false, Bool.false_eq_true, if_false, hcounted]
  split_ifs
  · exact ⟨rfl, expire_countsTo hpositive hstands rfl le_rfl⟩
  · exact ⟨rfl, hstands⟩

end FileForge.Api.Limiter
