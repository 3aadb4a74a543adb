import FileForge.Api.Limiter
import FileForge.Foundation.HandlerChain

/-!
# The Express application

`createApp` of `src/app.ts`: the handlers in the order in which they are registered. Express runs a
handler mounted without a path for every request that reaches it, so a limiter in front of one
router also counts the requests of the routers behind it. A router answers `OPTIONS` for the paths of
its routes by itself; for the routes of the application itself the handler of unknown routes comes
first.

The security headers, the body parser and the request log hand every well-formed request on and
keep no state of this model, so they are left out; so are the error handlers, which only see a
request whose handler has failed. A route's handler answers its request (`Response.answeredBy`).
None of the handlers sends a `429` of its own, so what else it answers is left open here.

The limiters of this module run with a working Redis: no command of a limiter call fails.
-/

set_option autoImplicit false
set_option relaxedAutoImplicit false

namespace FileForge.Api.Application

open Foundation.ExpiringStore Foundation.HandlerChain Limiter

/-! ### Requests and routes -/

inductive Method
  | get
  | head
  | post
  | other (name : String)
  deriving DecidableEq, Repr

/-- A request as the handlers of this module see it: the method, the segments of the path, the
address Express found (`req.ip`) and the moment the request is served. -/
structure Request where
  method : Method
  path : List String
  ip : Option String
  now : ℕ
  deriving DecidableEq, Repr

/-- The routes of the application. -/
inductive Route
  | status
  | metrics
  | healthLive
  | healthReady
  | root
  | postUploads
  | getUpload
  | getFile
  | postFileLinks
  | postJobs
  | getJob
  | getJobEvents
  deriving DecidableEq, Repr

/-- The path a route is registered under. -/
def Route.path : Route → List PathPart
  | .status => [.literal "status"]
  | .metrics => [.literal "metrics"]
  | .healthLive => [.literal "health", .literal "live"]
  | .healthReady => [.literal "health", .literal "ready"]
  | .root => []
  | .postUploads => [.literal "uploads"]
  | .getUpload => [.literal "uploads", .param]
  | .getFile => [.literal "files", .splat]
  | .postFileLinks => [.literal "files", .literal "links"]
  | .postJobs => [.literal "jobs"]
  | .getJob => [.literal "jobs", .param]
  | .getJobEvents => [.literal "jobs", .param, .literal "events"]

/-- The route is registered with `post`; the others are registered with `get`. -/
def Route.isPost : Route → Bool
  | .postUploads | .postFileLinks | .postJobs => true
  | _ => false

/-- Express runs a `get` route for `HEAD` requests too. -/
def Route.accepts (route : Route) : Method → Bool
  | .post => route.isPost
  | .get | .head => !route.isPost
  | .other _ => false

def Route.handles (route : Route) (request : Request) : Bool :=
  route.accepts request.method && pathMatches route.path request.path

/-- What a client gets back. -/
inductive Response
  | answeredBy (route : Route)
  /-- The answer of a router to `OPTIONS`, with the methods of its `Allow` header. -/
  | allowed (methods : List String)
  /-- `429`, with the verdict of the limiter that sent it. -/
  | rateLimited (options : RateLimitOptions) (verdict : Verdict)
  | notFound
  deriving DecidableEq, Repr

/-- The response has status `429`. -/
def Response.IsRateLimited : Response → Prop
  | .rateLimited _ _ => True
  | _ => False

instance : DecidablePred Response.IsRateLimited
  | .rateLimited _ _ => .isTrue trivial
  | .answeredBy _ => .isFalse not_false
  | .allowed _ => .isFalse not_false
  | .notFound => .isFalse not_false

/-! ### The chain of handlers -/

abbrev Step := Handler (Keyspace String ℕ) Request Response

/-- The routes that are registered on the application itself. They answer their requests and hand
every other request on. -/
def registered (routes : List Route) : Step := fun request db ↦
  ((routes.find? (·.handles request)).map .answeredBy, db)

/-- The methods that a route is there for. -/
def Route.methods (route : Route) : List String := if route.isPost then ["POST"] else ["GET", "HEAD"]

/-- What a router says to `OPTIONS`: the methods of its routes with the path, if there is one. -/
def allowedMethods (routes : List Route) (request : Request) : Option (List String) :=
  if request.method = .other "OPTIONS" then
    match routes.filter fun route ↦ pathMatches route.path request.path with
    | [] => none
    | found => some ((found.flatMap Route.methods).dedup.mergeSort fun first second ↦
      decide (first ≤ second))
  else none

/-- A router answers the requests of its routes, and `OPTIONS` for their paths by itself. It hands
every other request on. -/
def router (routes : List Route) : Step := fun request db ↦
  (((routes.find? (·.handles request)).map .answeredBy).or
    ((allowedMethods routes request).map .allowed), db)

/-- A limiter mounted with `app.use`: it answers a request only to refuse it. -/
def limiter (redis : Bool) (options : RateLimitOptions) : Step := fun request db ↦
  let outcome := createRateLimiter redis options {} request.ip request.now db
  if outcome.1.IsRefused then (some (.rateLimited options outcome.1), outcome.2)
  else (none, outcome.2)

/-- `jobTraffic`: writes are dear, reads cheap. -/
def jobTraffic (redis : Bool) : Step := fun request db ↦
  if request.method = .post then limiter redis (rateLimits .job) request db
  else limiter redis (rateLimits .status) request db

/-- `AppDependencies`: what the application was given. -/
structure AppDependencies where
  redis : Bool
  storage : Bool
  files : Bool
  queue : Bool
  subscriber : Bool
  deriving DecidableEq, Repr

/-- `createMetricsRouter`. -/
def metricsRoutes : List Route := [.status, .metrics]

/-- The routes registered on the application itself. -/
def ownRoutes : List Route := [.healthLive, .healthReady, .root]

/-- `createUploadRouter`. -/
def uploadRoutes : List Route := [.postUploads, .getUpload]

/-- `createDownloadRouter`. -/
def downloadRoutes : List Route := [.getFile, .postFileLinks]

/-- `createJobRouter`. -/
def jobRoutes : List Route := [.postJobs, .getJob]

/-- `createEventRouter`. -/
def eventRoutes : List Route := [.getJobEvents]

/-- `createApp`: the handlers in the order of their registration. -/
def createApp (deps : AppDependencies) : List Step :=
  [router metricsRoutes, registered ownRoutes] ++
  (if deps.storage && deps.files then
    [limiter deps.redis (rateLimits .upload), router uploadRoutes] else []) ++
  (if deps.storage then
    [limiter deps.redis (rateLimits .read), router downloadRoutes] else []) ++
  (if deps.queue && deps.files then [jobTraffic deps.redis, router jobRoutes] else []) ++
  (if deps.queue && deps.subscriber then [router eventRoutes] else []) ++
  [fun _ db ↦ (some .notFound, db)]

/-- The application with all its dependencies present. -/
def fullDependencies : AppDependencies :=
  { redis := true, storage := true, files := true, queue := true, subscriber := true }

/-- One request through the application. -/
def serve (deps : AppDependencies) : Step := dispatch (createApp deps)

/-! ### The handlers one at a time -/

/-- The routes of the application itself ignore the requests of other routes. -/
theorem registered_ignores {routes : List Route} {request : Request}
    (h : ∀ route ∈ routes, route.handles request = false) :
    Ignores (registered routes) request := by
  intro db
  have hnone : routes.find? (·.handles request) = none :=
    List.find?_eq_none.mpr fun route hroute ↦ by simp [h route hroute]
  simp only [registered, hnone, Option.map_none]

/-- A router ignores the requests of other routes. Assumes: it is not asked for its options. -/
theorem router_ignores {routes : List Route} {request : Request}
    (h : ∀ route ∈ routes, route.handles request = false)
    (hmethod : request.method ≠ .other "OPTIONS") : Ignores (router routes) request := by
  intro db
  have hnone : routes.find? (·.handles request) = none :=
    List.find?_eq_none.mpr fun route hroute ↦ by simp [h route hroute]
  simp only [router, allowedMethods, hnone, if_neg hmethod, Option.map_none, Option.or_none]

/-- A router leaves the counters alone. -/
@[simp] theorem router_state (routes : List Route) (request : Request) (db : Keyspace String ℕ) :
    (router routes request db).2 = db := rfl

/-- A router sends no `429`. -/
theorem router_not_rateLimited {routes : List Route} {request : Request} {db : Keyspace String ℕ}
    {response : Response} (h : (router routes request db).1 = some response) :
    ¬ response.IsRateLimited := by
  rcases Option.or_eq_some_iff.mp h with hroute | ⟨-, hoptions⟩
  · obtain ⟨route, -, rfl⟩ := Option.map_eq_some_iff.mp hroute
    exact not_false
  · obtain ⟨methods, -, rfl⟩ := Option.map_eq_some_iff.mp hoptions
    exact not_false

/-- The step of a mounted limiter. Assumes: a counter that stands at `count` and a request of its
client in its window. A count within the allowance hands the request on, a count above it sends
`429`, and the counter stands at `count + 1` either way. -/
theorem limiter_step {options : RateLimitOptions} (hpositive : 0 < options.windowSeconds)
    {request : Request} {window count : ℕ} {db : Keyspace String ℕ}
    (hcount : CountsTo options (clientKey request.ip) window db count)
    (hwindow : windowOf options request.now = window) :
    (limiter true options request db).1 =
        (if options.limit < count + 1 then
          some (.rateLimited options (verdictOn options (count + 1))) else none) ∧
      CountsTo options (clientKey request.ip) window (limiter true options request db).2
        (count + 1) := by
  obtain ⟨hverdict, hnext⟩ := createRateLimiter_countsTo hpositive hcount hwindow
  simp only [limiter, hverdict, verdictOn_isRefused_iff]
  split_ifs
  · exact ⟨rfl, hnext⟩
  · exact ⟨rfl, hnext⟩

/-- A mounted limiter leaves the other counters alone. -/
theorem limiter_of_ne (redis : Bool) (options : RateLimitOptions) (request : Request)
    (db : Keyspace String ℕ) {other : String}
    (h : other ≠ limiterKey options.bucket (clientKey request.ip)
      (windowOf options request.now)) :
    (limiter redis options request db).2 other = db other := by
  have hframe := createRateLimiter_of_ne redis options {} request.ip request.now db h
  simp only [limiter]
  split_ifs
  · exact hframe
  · exact hframe

end FileForge.Api.Application
