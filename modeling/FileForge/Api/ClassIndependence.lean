import FileForge.Api.Application
import Mathlib.Order.MinMax
import Mathlib.Tactic.Common

/-!
# Whether the traffic classes are limited independently

The README gives every class of traffic an allowance of its own. The application mounts its limiters
without a path, so a request is counted by every limiter it passes on the way to its route: the
upload limiter stands first and counts everything.

A sequence of requests of one client inside one window (`ApiRequest`) meets the promise
(`ClassesIndependent`) when a `429` is only ever sent to a request whose own class has used up its
allowance. After `n` requests the upload counter stands at `n` and no other counter has passed the
upload limit (`Counters`, `serve_step`), so a request is refused exactly when more than twenty came
before or with it, of whatever class (`refused_iff`). The promise therefore holds exactly of the
sequences of at most twenty requests and of those made of uploads alone
(`classesIndependent_iff`), and twenty-one status requests break it
(`not_classesIndependent_status`).
-/

set_option autoImplicit false
set_option relaxedAutoImplicit false

namespace FileForge.Api.ClassIndependence

open Foundation.ExpiringStore Foundation.HandlerChain Limiter Application

/-! ### The traffic of one client in one window -/

/-- The allowance that the README gives the traffic of a route, `none` for the routes that are not
limited. -/
def trafficClassOf : Route → Option TrafficClass
  | .postUploads => some .upload
  | .getUpload | .getFile | .postFileLinks => some .read
  | .postJobs => some .job
  | .getJob | .getJobEvents => some .status
  | .status | .metrics | .healthLive | .healthReady | .root => none

/-- A request of one client, inside one window, to one of the limited routes. -/
structure ApiRequest (client : String) (window : ℕ) where
  request : Request
  route : Route
  trafficClass : TrafficClass
  handled : route.handles request = true
  classified : trafficClassOf route = some trafficClass
  ofClient : clientKey request.ip = client
  inWindow : request.now / 1000 / 60 = window

section OneWindow

variable {client : String} {window : ℕ}

/-- The request, served after the others, gets a `429`. -/
def RefusedAfter (db : Keyspace String ℕ) (earlier : List (ApiRequest client window))
    (request : ApiRequest client window) : Prop :=
  ∃ response, (serve fullDependencies request.request
      (stateAfter (serve fullDependencies) (earlier.map (·.request)) db)).1 = some response ∧
    response.IsRateLimited

/-- The requests of a sequence that belong to a class. -/
def countOf (trafficClass : TrafficClass) (traffic : List (ApiRequest client window)) : ℕ :=
  traffic.countP (·.trafficClass = trafficClass)

/-- Only the requests of its own class use up the allowance of a request. -/
def ClassesIndependent (db : Keyspace String ℕ) (traffic : List (ApiRequest client window)) :
    Prop :=
  ∀ earlier request later, traffic = earlier ++ request :: later →
    RefusedAfter db earlier request →
      (rateLimits request.trafficClass).limit <
        countOf request.trafficClass (earlier ++ [request])

/-- No counter of the client exists for the window yet. -/
def WindowUnused (client : String) (window : ℕ) (db : Keyspace String ℕ) : Prop :=
  ∀ trafficClass, db (limiterKey (rateLimits trafficClass).bucket client window) = none

/-! ### Where a request is counted -/

/-- The first segment of a route's path. -/
def area : Route → String
  | .status => "status"
  | .metrics => "metrics"
  | .healthLive | .healthReady => "health"
  | .root => ""
  | .postUploads | .getUpload => "uploads"
  | .getFile | .postFileLinks => "files"
  | .postJobs | .getJob | .getJobEvents => "jobs"

/-- A route handles only requests of its own area. -/
theorem area_of_handles {route : Route} {request : Request}
    (h : route.handles request = true) :
    foldCase (request.path.headD "") = (area route).toList := by
  obtain ⟨-, hpath⟩ := Bool.and_eq_true_iff.mp h
  cases hsegments : request.path with
  | nil =>
    rw [hsegments] at hpath
    cases route with
    | root => decide
    | _ => simp [Route.path, pathMatches] at hpath
  | cons segment rest =>
    rw [hsegments] at hpath
    cases route with
    | root =>
      have hempty : segment = "" := by simp_all [Route.path, pathMatches]
      rw [hempty]
      rfl
    | _ =>
      simp only [Route.path, pathMatches, Bool.and_eq_true, beq_iff_eq] at hpath
      exact hpath.1

/-- No route in front of the limiters shares its area with a limited route. -/
theorem area_ne_of_limited {limited : Route} {trafficClass : TrafficClass}
    (h : trafficClassOf limited = some trafficClass) :
    ∀ route ∈ metricsRoutes ++ ownRoutes, area route ≠ area limited := by
  cases limited with
  | status | metrics | healthLive | healthReady | root => simp [trafficClassOf] at h
  | _ => simp [metricsRoutes, ownRoutes, area]

/-- The routers in front of the limiters ignore the limited traffic. -/
theorem front_ignores (request : ApiRequest client window) :
    ∀ handler ∈ [router metricsRoutes, registered ownRoutes],
      Ignores handler request.request := by
  have hother : ∀ route ∈ metricsRoutes ++ ownRoutes,
      route.handles request.request = false := by
    intro route hroute
    by_contra hhandles
    have hsame : (area route).toList = (area request.route).toList :=
      (area_of_handles (eq_true_of_ne_false hhandles)).symm.trans (area_of_handles request.handled)
    exact area_ne_of_limited request.classified route hroute (String.toList_injective hsame)
  intro handler hhandler
  rcases List.mem_pair.mp hhandler with rfl | rfl
  · refine router_ignores (fun route hroute ↦ hother route (List.mem_append_left _ hroute)) ?_
    intro hmethod
    have haccepts := (Bool.and_eq_true_iff.mp request.handled).1
    rw [hmethod] at haccepts
    exact Bool.false_ne_true haccepts
  · exact registered_ignores fun route hroute ↦ hother route (List.mem_append_right _ hroute)

/-- The counters of the client in the window stand at `counts`. -/
def CountsAll (client : String) (window : ℕ) (db : Keyspace String ℕ)
    (counts : TrafficClass → ℕ) : Prop :=
  ∀ trafficClass, CountsTo (rateLimits trafficClass) client window db (counts trafficClass)

/-- The counts after one more request of a class. -/
def bump (counts : TrafficClass → ℕ) (trafficClass : TrafficClass) : TrafficClass → ℕ :=
  Function.update counts trafficClass (counts trafficClass + 1)

theorem bump_le (counts : TrafficClass → ℕ) (trafficClass other : TrafficClass) :
    bump counts trafficClass other ≤ counts other + 1 := by
  unfold bump
  by_cases h : other = trafficClass
  · subst h
    exact (Function.update_self _ _ _).le
  · rw [Function.update_of_ne h]
    exact Nat.le_succ _

theorem bump_of_ne (counts : TrafficClass → ℕ) {trafficClass other : TrafficClass}
    (h : other ≠ trafficClass) : bump counts trafficClass other = counts other :=
  Function.update_of_ne h _ _

/-- A mounted limiter counts one request of its class. Assumes: counters that stand at `counts`. -/
theorem limiter_countsAll {db : Keyspace String ℕ} {counts : TrafficClass → ℕ}
    (hcounts : CountsAll client window db counts) (trafficClass : TrafficClass)
    (request : ApiRequest client window) :
    (limiter true (rateLimits trafficClass) request.request db).1 =
        (if (rateLimits trafficClass).limit < counts trafficClass + 1 then
          some (.rateLimited (rateLimits trafficClass)
            (verdictOn (rateLimits trafficClass) (counts trafficClass + 1))) else none) ∧
      CountsAll client window (limiter true (rateLimits trafficClass) request.request db).2
        (bump counts trafficClass) := by
  have hwindow : ∀ other, windowOf (rateLimits other) request.request.now = window := by
    intro other
    rw [windowOf, rateLimits_windowSeconds]
    exact request.inWindow
  have hown := hcounts trafficClass
  rw [← request.ofClient] at hown
  obtain ⟨hresponse, hnext⟩ := limiter_step (rateLimits_windowSeconds_pos trafficClass) hown
    (hwindow trafficClass)
  refine ⟨hresponse, fun other ↦ ?_⟩
  by_cases hother : other = trafficClass
  · subst hother
    rw [bump, Function.update_self]
    simpa only [request.ofClient] using hnext
  · rw [bump_of_ne counts hother]
    refine (hcounts other).congr (limiter_of_ne true _ request.request db ?_)
    rw [request.ofClient, hwindow trafficClass]
    intro hkey
    exact hother (rateLimits_key_injective hkey).1

/-- Some class of job traffic is counted by `jobTraffic`. -/
theorem jobTraffic_eq (request : Request) : ∃ trafficClass, trafficClass ≠ .upload ∧
    trafficClass ≠ .read ∧
      jobTraffic true request = limiter true (rateLimits trafficClass) request := by
  by_cases h : request.method = .post
  · exact ⟨.job, by decide, by decide, by funext db; simp only [jobTraffic, if_pos h]⟩
  · exact ⟨.status, by decide, by decide, by funext db; simp only [jobTraffic, if_neg h]⟩

/-- The outcome of a chain answers without a `429` and leaves the counters at `counts` or, for some
classes other than `upload`, one above. -/
def Admitted (client : String) (window : ℕ) (counts : TrafficClass → ℕ)
    (outcome : Option Response × Keyspace String ℕ) : Prop :=
  ∃ response counts', outcome.1 = some response ∧ ¬ response.IsRateLimited ∧
    CountsAll client window outcome.2 counts' ∧ counts' .upload = counts .upload ∧
      ∀ trafficClass, counts' trafficClass ≤ counts trafficClass + 1

/-- A router in a chain either answers, or leaves the request to the rest. -/
theorem dispatch_router {routes : List Route} {rest : List Step} {request : Request}
    {db : Keyspace String ℕ} {counts counts' : TrafficClass → ℕ}
    (hcounts : CountsAll client window db counts') (hupload : counts' .upload = counts .upload)
    (hbound : ∀ trafficClass, counts' trafficClass ≤ counts trafficClass + 1)
    (hrest : Admitted client window counts (dispatch rest request db)) :
    Admitted client window counts (dispatch (router routes :: rest) request db) := by
  cases hrouter : (router routes request db).1 with
  | none =>
    rw [dispatch_cons_pass (Prod.ext hrouter (router_state routes request db))]
    exact hrest
  | some response =>
    rw [dispatch_cons_answer (Prod.ext hrouter (router_state routes request db))]
    exact ⟨response, counts', rfl, router_not_rateLimited hrouter, hcounts, hupload, hbound⟩

/-- Behind the upload limiter nothing is refused. Assumes: counters of the other classes below the
upload limit. -/
theorem dispatch_behind_upload {db : Keyspace String ℕ} {counts : TrafficClass → ℕ}
    (hcounts : CountsAll client window db counts)
    (hbelow : ∀ trafficClass, trafficClass ≠ .upload →
      counts trafficClass < (rateLimits .upload).limit)
    (request : ApiRequest client window) :
    Admitted client window counts
      (dispatch [router uploadRoutes, limiter true (rateLimits .read), router downloadRoutes,
        jobTraffic true, router jobRoutes, router eventRoutes, fun _ db ↦ (some .notFound, db)]
        request.request db) := by
  have hpass : ∀ trafficClass, trafficClass ≠ .upload → ∀ {current : TrafficClass → ℕ},
      current trafficClass = counts trafficClass →
        ¬ (rateLimits trafficClass).limit < current trafficClass + 1 := by
    intro trafficClass hne current hcurrent
    have hsmall := hbelow trafficClass hne
    rw [hcurrent]
    cases trafficClass <;> simp only [rateLimits] at hsmall ⊢ <;> omega
  obtain ⟨jobClass, hjobUpload, hjobRead, hjobTraffic⟩ := jobTraffic_eq request.request
  refine dispatch_router hcounts rfl (fun _ ↦ Nat.le_succ _) ?_
  -- the read limiter
  obtain ⟨hread, hcountsRead⟩ := limiter_countsAll hcounts .read request
  rw [if_neg (hpass .read (by decide) rfl)] at hread
  rw [dispatch_cons_pass (Prod.ext hread rfl)]
  refine dispatch_router hcountsRead (bump_of_ne counts (by decide)) (bump_le counts .read) ?_
  -- the limiter that `jobTraffic` chooses
  obtain ⟨hjob, hcountsJob⟩ := limiter_countsAll hcountsRead jobClass request
  rw [if_neg (hpass jobClass hjobUpload (bump_of_ne counts hjobRead))] at hjob
  rw [← hjobTraffic] at hjob hcountsJob
  rw [dispatch_cons_pass (Prod.ext hjob rfl)]
  have hupload : bump (bump counts .read) jobClass .upload = counts .upload := by
    rw [bump_of_ne _ hjobUpload.symm, bump_of_ne _ (by decide)]
  have hbound : ∀ trafficClass,
      bump (bump counts .read) jobClass trafficClass ≤ counts trafficClass + 1 := by
    intro trafficClass
    by_cases hclass : trafficClass = jobClass
    · subst hclass
      calc bump (bump counts .read) trafficClass trafficClass
          ≤ bump counts .read trafficClass + 1 := bump_le _ _ _
        _ = counts trafficClass + 1 := by rw [bump_of_ne _ hjobRead]
    · rw [bump_of_ne _ hclass]
      exact bump_le counts .read trafficClass
  refine dispatch_router hcountsJob hupload hbound ?_
  refine dispatch_router hcountsJob hupload hbound ?_
  exact ⟨.notFound, _, rfl, not_false, hcountsJob, hupload, hbound⟩

/-! ### What a sequence of requests does to the counters -/

/-- After `served` requests the upload counter stands at `served`, and no other counter has passed
the upload limit. -/
def Counters (client : String) (window : ℕ) (served : ℕ) (db : Keyspace String ℕ) : Prop :=
  ∃ counts, CountsAll client window db counts ∧ counts .upload = served ∧
    ∀ trafficClass, trafficClass ≠ .upload →
      counts trafficClass ≤ min served (rateLimits .upload).limit

/-- Assumes: a window without counters. All of them stand at zero. -/
theorem counters_of_windowUnused {db : Keyspace String ℕ} (h : WindowUnused client window db) :
    Counters client window 0 db :=
  ⟨fun _ ↦ 0, fun trafficClass ↦ Or.inl ⟨rfl, h trafficClass⟩, rfl, fun _ _ ↦ Nat.zero_le _⟩

/-- One request. It is refused exactly when the upload counter passes its limit with it, whatever
the class of the request. -/
theorem serve_step {db : Keyspace String ℕ} {served : ℕ}
    (h : Counters client window served db) (request : ApiRequest client window) :
    (∃ response, (serve fullDependencies request.request db).1 = some response ∧
        (response.IsRateLimited ↔ (rateLimits .upload).limit < served + 1)) ∧
      Counters client window (served + 1) (serve fullDependencies request.request db).2 := by
  obtain ⟨counts, hcounts, hserved, hothers⟩ := h
  obtain ⟨hupload, hcountsUpload⟩ := limiter_countsAll hcounts .upload request
  have hchain : serve fullDependencies request.request db =
      dispatch [limiter true (rateLimits .upload), router uploadRoutes,
        limiter true (rateLimits .read), router downloadRoutes, jobTraffic true, router jobRoutes,
        router eventRoutes, fun _ db ↦ (some .notFound, db)] request.request db :=
    dispatch_append_of_ignored _ (front_ignores request) db
  have hbumped : bump counts .upload .upload = served + 1 := by
    rw [bump, Function.update_self, hserved]
  rw [hchain]
  rw [hserved] at hupload
  by_cases hlimit : (rateLimits .upload).limit < served + 1
  · rw [if_pos hlimit] at hupload
    rw [dispatch_cons_answer (Prod.ext hupload rfl)]
    refine ⟨⟨_, rfl, iff_of_true trivial hlimit⟩, _, hcountsUpload, hbumped, ?_⟩
    intro trafficClass hclass
    rw [bump_of_ne counts hclass]
    exact le_trans (hothers trafficClass hclass) (min_le_min_right _ (Nat.le_succ served))
  · rw [if_neg hlimit] at hupload
    rw [dispatch_cons_pass (Prod.ext hupload rfl)]
    have hbelow : ∀ trafficClass, trafficClass ≠ .upload →
        bump counts .upload trafficClass < (rateLimits .upload).limit := by
      intro trafficClass hclass
      rw [bump_of_ne counts hclass]
      have hle := le_trans (hothers trafficClass hclass) (min_le_left _ _)
      omega
    obtain ⟨response, counts', hresponse, hadmitted, hcounts', hupload', hbound⟩ :=
      dispatch_behind_upload hcountsUpload hbelow request
    refine ⟨⟨response, hresponse, iff_of_false hadmitted hlimit⟩, counts', hcounts',
      hupload'.trans hbumped, fun trafficClass hclass ↦ ?_⟩
    have hle := hbound trafficClass
    rw [bump_of_ne counts hclass] at hle
    have hold := le_trans (hothers trafficClass hclass) (min_le_left _ _)
    exact le_min (by omega) (by omega)

/-- A sequence of requests. Assumes: a window without counters. -/
theorem counters_stateAfter {db : Keyspace String ℕ} (hunused : WindowUnused client window db)
    (traffic : List (ApiRequest client window)) :
    Counters client window traffic.length
      (stateAfter (serve fullDependencies) (traffic.map (·.request)) db) := by
  have hrun : Counters client window (0 + (traffic.map (·.request)).length)
      (stateAfter (serve fullDependencies) (traffic.map (·.request)) db) := by
    refine stateAfter_induction ?_ (counters_of_windowUnused hunused)
    intro served state request hrequest hcounters
    obtain ⟨apiRequest, -, rfl⟩ := List.mem_map.mp hrequest
    exact (serve_step hcounters apiRequest).2
  rwa [List.length_map, Nat.zero_add] at hrun

/-- A request is refused exactly when, with it, the window has seen more requests than the upload
limit, of whatever class. -/
theorem refused_iff {db : Keyspace String ℕ} (hunused : WindowUnused client window db)
    (earlier : List (ApiRequest client window)) (request : ApiRequest client window) :
    RefusedAfter db earlier request ↔ (rateLimits .upload).limit ≤ earlier.length := by
  obtain ⟨⟨response, hresponse, hlimited⟩, -⟩ :=
    serve_step (counters_stateAfter hunused earlier) request
  rw [Nat.lt_succ_iff] at hlimited
  constructor
  · rintro ⟨other, hother, hrefused⟩
    rw [hresponse, Option.some_inj] at hother
    exact hlimited.mp (hother ▸ hrefused)
  · intro hlength
    exact ⟨response, hresponse, hlimited.mpr hlength⟩

/-! ### The promise -/

/-- Assumes: a window without counters and a sequence that meets the promise. The request at a
position past the upload limit has a class that has used up its allowance. -/
theorem limit_lt_countOf_take {db : Keyspace String ℕ} (hunused : WindowUnused client window db)
    {traffic : List (ApiRequest client window)} (h : ClassesIndependent db traffic)
    {position : ℕ} (hposition : position < traffic.length)
    (hlate : (rateLimits .upload).limit ≤ position) :
    (rateLimits traffic[position].trafficClass).limit <
      countOf traffic[position].trafficClass (traffic.take (position + 1)) := by
  have hsplit : traffic =
      traffic.take position ++ traffic[position] :: traffic.drop (position + 1) := by
    rw [← List.drop_eq_getElem_cons hposition, List.take_append_drop]
  have hlength : (traffic.take position).length = position := by
    rw [List.length_take]
    omega
  have hrefused : RefusedAfter db (traffic.take position) traffic[position] := by
    rw [refused_iff hunused, hlength]
    exact hlate
  have hcount := h _ _ _ hsplit hrefused
  rwa [List.take_append_getElem hposition] at hcount

/-- The upload limit is the smallest. -/
theorem uploadLimit_lt {trafficClass : TrafficClass} (h : trafficClass ≠ .upload) :
    (rateLimits .upload).limit + 1 < (rateLimits trafficClass).limit := by
  cases trafficClass with
  | upload => exact absurd rfl h
  | _ => decide

/-- Assumes: one request more than the upload limit, and a class that has used up its allowance
with them. All of them are uploads. -/
theorem uploads_of_limit_lt_countOf {trafficClass : TrafficClass}
    {taken : List (ApiRequest client window)}
    (hlength : taken.length = (rateLimits .upload).limit + 1)
    (hcount : (rateLimits trafficClass).limit < countOf trafficClass taken) :
    ∀ request ∈ taken, request.trafficClass = .upload := by
  have hle : countOf trafficClass taken ≤ taken.length := List.countP_le_length
  have hupload : trafficClass = .upload := by
    by_contra hother
    have hlimit := uploadLimit_lt hother
    omega
  subst hupload
  have hall : countOf .upload taken = taken.length := Nat.le_antisymm hle (by omega)
  intro request hrequest
  exact of_decide_eq_true (List.countP_eq_length.mp hall request hrequest)

/-- Assumes: a request after uploads only, with which its class has used up its allowance. It is an
upload. -/
theorem upload_of_limit_lt_countOf {earlier : List (ApiRequest client window)}
    {request : ApiRequest client window}
    (huploads : ∀ other ∈ earlier, other.trafficClass = .upload)
    (hcount : (rateLimits request.trafficClass).limit <
      countOf request.trafficClass (earlier ++ [request])) : request.trafficClass = .upload := by
  by_contra hother
  have hzero : countOf request.trafficClass earlier = 0 := by
    refine List.countP_eq_zero.mpr fun other hmem hsame ↦ hother ?_
    exact (of_decide_eq_true hsame).symm.trans (huploads other hmem)
  have hone : countOf request.trafficClass [request] ≤ 1 := List.countP_le_length
  have hsum : countOf request.trafficClass (earlier ++ [request]) =
      countOf request.trafficClass earlier + countOf request.trafficClass [request] :=
    List.countP_append
  have hlimit := uploadLimit_lt hother
  omega

/-- Assumes: a window without counters, and a sequence longer than the upload limit that meets the
promise. Every prefix longer than the upload limit is made of uploads. -/
theorem take_uploads {db : Keyspace String ℕ} (hunused : WindowUnused client window db)
    {traffic : List (ApiRequest client window)} (h : ClassesIndependent db traffic) (extra : ℕ) :
    (rateLimits .upload).limit + extra < traffic.length →
      ∀ request ∈ traffic.take ((rateLimits .upload).limit + extra + 1),
        request.trafficClass = .upload := by
  induction extra with
  | zero =>
    intro hlong
    have hcount := limit_lt_countOf_take hunused h hlong (Nat.le_refl _)
    refine uploads_of_limit_lt_countOf ?_ hcount
    rw [List.length_take]
    omega
  | succ extra ih =>
    intro hlong
    have hcount := limit_lt_countOf_take hunused h hlong (Nat.le_add_right _ _)
    have hearlier := ih (by omega)
    rw [← List.take_append_getElem hlong] at hcount ⊢
    intro request hrequest
    rcases List.mem_append.mp hrequest with hmem | hmem
    · exact hearlier request hmem
    · rw [List.mem_singleton.mp hmem]
      exact upload_of_limit_lt_countOf hearlier hcount

/-- The promise of independent allowances holds exactly of the sequences no longer than the upload
limit and of those made of uploads alone. Assumes: a window without counters. -/
theorem classesIndependent_iff {db : Keyspace String ℕ} (hunused : WindowUnused client window db)
    (traffic : List (ApiRequest client window)) :
    ClassesIndependent db traffic ↔
      traffic.length ≤ (rateLimits .upload).limit ∨
        ∀ request ∈ traffic, request.trafficClass = .upload := by
  constructor
  · intro h
    by_cases hshort : traffic.length ≤ (rateLimits .upload).limit
    · exact Or.inl hshort
    · right
      have huploads := take_uploads hunused h (traffic.length - (rateLimits .upload).limit - 1)
        (by omega)
      have hwhole : (rateLimits .upload).limit +
          (traffic.length - (rateLimits .upload).limit - 1) + 1 = traffic.length := by omega
      rwa [hwhole, List.take_length] at huploads
  · intro h earlier request later hsplit hrefused
    have hlate := (refused_iff hunused earlier request).mp hrefused
    rcases h with hshort | huploads
    · rw [hsplit, List.length_append, List.length_cons] at hshort
      omega
    · have hrequest : request.trafficClass = .upload := by
        refine huploads request ?_
        rw [hsplit]
        exact List.mem_append_right _ List.mem_cons_self
      have hall : countOf .upload (earlier ++ [request]) = (earlier ++ [request]).length := by
        refine List.countP_eq_length.mpr fun other hother ↦ decide_eq_true (huploads other ?_)
        rw [hsplit, List.append_cons]
        exact List.mem_append_left _ hother
      rw [hrequest, hall, List.length_append, List.length_singleton]
      omega

end OneWindow

/-! ### A run that breaks the promise -/

/-- `GET /jobs/1` of one client. -/
def jobStatusRequest : ApiRequest "203.0.113.7" 0 where
  request := { method := .get, path := ["jobs", "1"], ip := some "203.0.113.7", now := 0 }
  route := .getJob
  trafficClass := .status
  handled := by decide
  classified := rfl
  ofClient := rfl
  inWindow := rfl

theorem windowUnused_empty (client : String) (window : ℕ) : WindowUnused client window empty :=
  fun _ ↦ rfl

/-- `POST /uploads` of the same client. -/
def uploadRequest : ApiRequest "203.0.113.7" 0 where
  request := { method := .post, path := ["uploads"], ip := some "203.0.113.7", now := 40000 }
  route := .postUploads
  trafficClass := .upload
  handled := by decide
  classified := rfl
  ofClient := rfl
  inWindow := rfl

/-- `GET /files/outputs/a.png` of the same client. -/
def fileRequest : ApiRequest "203.0.113.7" 0 where
  request := { method := .get, path := ["files", "outputs", "a.png"], ip := some "203.0.113.7"
               now := 59999 }
  route := .getFile
  trafficClass := .read
  handled := by decide
  classified := rfl
  ofClient := rfl
  inWindow := rfl

/-- Twenty requests of three classes keep the promise, and so do thirty uploads. -/
theorem classesIndependent_mixed :
    ClassesIndependent empty (uploadRequest :: List.replicate 18 jobStatusRequest ++ [fileRequest]) ∧
      ClassesIndependent empty (List.replicate 30 uploadRequest) := by
  constructor
  · exact (classesIndependent_iff (windowUnused_empty _ _) _).mpr (Or.inl (by decide))
  · refine (classesIndependent_iff (windowUnused_empty _ _) _).mpr (Or.inr fun request hmem ↦ ?_)
    rw [List.eq_of_mem_replicate hmem]
    rfl

/-- The twenty-first status request of a window is refused, though its class may send three
hundred. -/
theorem not_classesIndependent_status :
    ¬ ClassesIndependent empty (List.replicate 21 jobStatusRequest) := by
  intro h
  have hrefused : RefusedAfter empty (List.replicate 20 jobStatusRequest) jobStatusRequest :=
    (refused_iff (windowUnused_empty _ _) _ _).mpr (by decide)
  have hcount := h (List.replicate 20 jobStatusRequest) jobStatusRequest [] rfl hrefused
  exact absurd hcount (by decide)

end FileForge.Api.ClassIndependence
