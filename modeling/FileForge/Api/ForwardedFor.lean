import FileForge.Api.Limiter
import FileForge.Foundation.Quotas

/-!
# Allowances and `X-Forwarded-For`

The identity a request is counted under. `createApp` of `src/app.ts` sets `trust proxy` to `true`,
so Express takes `req.ip` from the left-most entry of `X-Forwarded-For`, a header that the caller
writes; the text of that entry is left to Express here (`leftmost`).

The calls of one limiter in one window give each address a quota of its own (`admitted_eq_admits`).
What one network peer gets is therefore within one allowance exactly when its requests are within it
already, or all come to one address (`count_admitted_le_iff`), which is always so without the
setting (`count_admitted_le_of_untrusted`).
-/

set_option autoImplicit false
set_option relaxedAutoImplicit false

namespace FileForge.Api.ForwardedFor

open Foundation.ExpiringStore Foundation.Quotas Limiter

/-! ### The requests of one network peer -/

/-- A request of the peer: its `X-Forwarded-For` header, when it has one, and the moment at which it
is served. -/
structure PeerRequest where
  forwardedFor : Option String
  now : ℕ
  deriving DecidableEq, Repr

/-- `app.set('trust proxy', true)` of `createApp`. -/
def trustProxy : Bool := true

/-- `req.ip`: with the setting, the left-most entry of the header where there is one, and the
address of the peer otherwise. -/
def reqIp (leftmost : String → Option String) (trust : Bool) (peer : String)
    (request : PeerRequest) : String :=
  if trust then (request.forwardedFor.bind leftmost).getD peer else peer

/-- The calls of one limiter, one request after the other: whether each was passed on. -/
def admitted (options : RateLimitOptions) (ipOf : PeerRequest → String) :
    List PeerRequest → Keyspace String ℕ → List Bool
  | [], _ => []
  | request :: rest, db =>
    let outcome := createRateLimiter true options {} (some (ipOf request)) request.now db
    (!decide outcome.1.IsRefused) :: admitted options ipOf rest outcome.2

/-! ### A quota for each address -/

/-- No request has been counted in the bucket and the window. -/
def Fresh (options : RateLimitOptions) (window : ℕ) (db : Keyspace String ℕ) : Prop :=
  ∀ client, db (limiterKey options.bucket client window) = none

theorem fresh_empty (options : RateLimitOptions) (window : ℕ) : Fresh options window empty :=
  fun _ ↦ rfl

section Admitted

variable {traffic : TrafficClass} {window : ℕ} {ipOf : PeerRequest → String}

/-- A call moves the counter of its address. Assumes: counters that stand at `counts`. -/
theorem countsTo_bump {db : Keyspace String ℕ} {counts : String → ℕ}
    (hcounts : ∀ client, CountsTo (rateLimits traffic) client window db (counts client))
    {ip : String} {now : ℕ} (hwindow : windowOf (rateLimits traffic) now = window)
    (client : String) :
    CountsTo (rateLimits traffic) client window
      (createRateLimiter true (rateLimits traffic) {} (some ip) now db).2
      (bump counts ip client) := by
  by_cases hclient : client = ip
  · subst hclient
    rw [bump_self]
    have hown : CountsTo (rateLimits traffic) (clientKey (some client)) window db
        (counts client) := hcounts client
    exact (createRateLimiter_countsTo (rateLimits_windowSeconds_pos traffic) hown hwindow).2
  · rw [bump_of_ne counts hclient]
    have hkey : limiterKey (rateLimits traffic).bucket client window ≠
        limiterKey (rateLimits traffic).bucket (clientKey (some ip))
          (windowOf (rateLimits traffic) now) := by
      intro hsame
      exact hclient (rateLimits_key_injective hsame).2.1
    exact (hcounts client).congr
      (createRateLimiter_of_ne true (rateLimits traffic) {} (some ip) now db hkey)

/-- The calls of one window are admitted by the quota of each address. -/
theorem admitted_eq_admits {requests : List PeerRequest} {db : Keyspace String ℕ}
    {counts : String → ℕ}
    (hcounts : ∀ client, CountsTo (rateLimits traffic) client window db (counts client))
    (hwindow : ∀ request ∈ requests, windowOf (rateLimits traffic) request.now = window) :
    admitted (rateLimits traffic) ipOf requests db =
      admits (rateLimits traffic).limit counts (requests.map ipOf) := by
  induction requests generalizing db counts with
  | nil => rfl
  | cons request rest ih =>
    have hnow := hwindow request List.mem_cons_self
    have hown : CountsTo (rateLimits traffic) (clientKey (some (ipOf request))) window db
        (counts (ipOf request)) := hcounts (ipOf request)
    have hcall := createRateLimiter_countsTo (rateLimits_windowSeconds_pos traffic) hown hnow
    have hverdict : (!decide (createRateLimiter true (rateLimits traffic) {}
        (some (ipOf request)) request.now db).1.IsRefused) =
          decide (counts (ipOf request) < (rateLimits traffic).limit) := by
      rw [hcall.1, ← decide_not, decide_eq_decide, verdictOn_isRefused_iff]
      omega
    rw [admitted, hverdict, ih (countsTo_bump hcounts hnow) fun other hother ↦
      hwindow other (List.mem_cons_of_mem request hother)]
    rfl

theorem admitted_eq_of_fresh {requests : List PeerRequest} {db : Keyspace String ℕ}
    (hfresh : Fresh (rateLimits traffic) window db)
    (hwindow : ∀ request ∈ requests, windowOf (rateLimits traffic) request.now = window) :
    admitted (rateLimits traffic) ipOf requests db =
      admits (rateLimits traffic).limit (fun _ ↦ 0) (requests.map ipOf) :=
  admitted_eq_admits (fun client ↦ Or.inl ⟨rfl, hfresh client⟩) hwindow

/-- Requests in one window get no more than one allowance exactly when they are no more than one, or
all come to one address. -/
theorem count_admitted_le_iff {requests : List PeerRequest} {db : Keyspace String ℕ}
    (hfresh : Fresh (rateLimits traffic) window db)
    (hwindow : ∀ request ∈ requests, windowOf (rateLimits traffic) request.now = window) :
    (admitted (rateLimits traffic) ipOf requests db).count true ≤ (rateLimits traffic).limit ↔
      Confined (rateLimits traffic).limit (requests.map ipOf) := by
  rw [admitted_eq_of_fresh hfresh hwindow]
  exact count_admits_le_iff (rateLimits_limit_pos traffic) _

/-- Without the setting the header makes no difference: one peer has one allowance. -/
theorem count_admitted_le_of_untrusted (leftmost : String → Option String) (peer : String)
    {requests : List PeerRequest} {db : Keyspace String ℕ}
    (hfresh : Fresh (rateLimits traffic) window db)
    (hwindow : ∀ request ∈ requests, windowOf (rateLimits traffic) request.now = window) :
    (admitted (rateLimits traffic) (reqIp leftmost false peer) requests db).count true ≤
      (rateLimits traffic).limit := by
  rw [count_admitted_le_iff hfresh hwindow]
  refine Or.inr fun first hfirst second hsecond ↦ ?_
  obtain ⟨request, -, rfl⟩ := List.mem_map.mp hfirst
  obtain ⟨other, -, rfl⟩ := List.mem_map.mp hsecond
  rfl

end Admitted

/-! ### The allowance of one peer -/

/-- What one peer gets, whatever headers it sends, and how far two runs that differ in the headers
alone can be told apart. Assumes: requests in one window, in which none was counted before. -/
theorem allowance_of_peer (leftmost : String → Option String) (peer : String)
    (traffic : TrafficClass) (window : ℕ) (requests : List PeerRequest) (db : Keyspace String ℕ)
    (hfresh : Fresh (rateLimits traffic) window db)
    (hwindow : ∀ request ∈ requests, windowOf (rateLimits traffic) request.now = window) :
    ((admitted (rateLimits traffic) (reqIp leftmost trustProxy peer) requests db).count true ≤
          (rateLimits traffic).limit ↔
        Confined (rateLimits traffic).limit (requests.map (reqIp leftmost trustProxy peer))) ∧
      ∀ others : List PeerRequest, others.map (·.now) = requests.map (·.now) →
        Confined (rateLimits traffic).limit (others.map (reqIp leftmost trustProxy peer)) →
        (admitted (rateLimits traffic) (reqIp leftmost trustProxy peer) requests db =
            admitted (rateLimits traffic) (reqIp leftmost trustProxy peer) others db ↔
          Confined (rateLimits traffic).limit
            (requests.map (reqIp leftmost trustProxy peer))) := by
  refine ⟨count_admitted_le_iff hfresh hwindow, fun others htimes hothers ↦ ?_⟩
  have hothersWindow : ∀ other ∈ others, windowOf (rateLimits traffic) other.now = window := by
    intro other hother
    have hnow : other.now ∈ requests.map (·.now) := htimes ▸ List.mem_map_of_mem hother
    obtain ⟨request, hrequest, hsame⟩ := List.mem_map.mp hnow
    rw [← hsame]
    exact hwindow request hrequest
  have hlength : others.length = requests.length := by
    have hmapped := congrArg List.length htimes
    simpa using hmapped
  constructor
  · intro hsame
    rw [← count_admitted_le_iff hfresh hwindow, hsame, count_admitted_le_iff hfresh hothersWindow]
    exact hothers
  · intro hconfined
    rw [admitted_eq_of_fresh hfresh hwindow, admitted_eq_of_fresh hfresh hothersWindow,
      admits_of_confined hconfined, admits_of_confined hothers, List.length_map, List.length_map,
      hlength]

/-- The left-most entry of a header without blanks. -/
def firstEntry (header : String) : Option String :=
  some (String.ofList (header.toList.takeWhile (· ≠ ',')))

/-- A peer with two uploads, one of them under an address of its choice. -/
theorem allowance_of_two :
    (admitted (rateLimits .upload) (reqIp firstEntry trustProxy "203.0.113.9")
      [⟨none, 0⟩, ⟨some "10.0.0.1, 10.0.0.2", 5⟩] empty).count true ≤
        (rateLimits .upload).limit := by
  refine (allowance_of_peer firstEntry "203.0.113.9" .upload 0
    [⟨none, 0⟩, ⟨some "10.0.0.1, 10.0.0.2", 5⟩] empty (fresh_empty _ _) ?_).1.mpr (Or.inl ?_)
  · intro request hrequest
    simp only [List.mem_cons, List.not_mem_nil, or_false] at hrequest
    rcases hrequest with rfl | rfl
    · rfl
    · rfl
  · show 2 ≤ 20
    decide

/-- Twenty-one uploads of one peer, the first under another address than the others. -/
def forgedUploads : List PeerRequest :=
  ⟨some "10.0.0.1", 0⟩ :: List.replicate 20 ⟨some "10.0.0.2", 0⟩

/-- All of them are passed on, one more than the allowance. -/
theorem lt_count_admitted_forged :
    ¬ (admitted (rateLimits .upload) (reqIp firstEntry trustProxy "203.0.113.9") forgedUploads
      empty).count true ≤ (rateLimits .upload).limit := by
  have hwindow : ∀ request ∈ forgedUploads, windowOf (rateLimits .upload) request.now = 0 := by
    intro request hrequest
    rcases List.mem_cons.mp hrequest with rfl | hrest
    · rfl
    · rw [List.eq_of_mem_replicate hrest]
      rfl
  rw [count_admitted_le_iff (fresh_empty _ 0) hwindow]
  rintro (hfew | hsame)
  · have hlength : 21 ≤ 20 := hfew
    exact absurd hlength (by decide)
  · have hfirst : "10.0.0.1" ∈ forgedUploads.map
        (reqIp firstEntry trustProxy "203.0.113.9") :=
      List.mem_map.mpr ⟨⟨some "10.0.0.1", 0⟩, List.mem_cons_self, rfl⟩
    have hsecond : "10.0.0.2" ∈ forgedUploads.map
        (reqIp firstEntry trustProxy "203.0.113.9") :=
      List.mem_map.mpr ⟨⟨some "10.0.0.2", 0⟩, List.mem_cons_of_mem _ List.mem_cons_self, rfl⟩
    exact absurd (hsame "10.0.0.1" hfirst "10.0.0.2" hsecond) (by decide)

end FileForge.Api.ForwardedFor
