import FileForge.Api.Answers
import FileForge.Files.StoredRecords
import FileForge.Foundation.RelyGuarantee
import FileForge.Jobs.JobOptions
import FileForge.Jobs.Worker

/-!
# Asking for a job

`POST /jobs` of `src/jobs/routes.ts`, from the text of the request to the text that the queue
stores: the body is checked against `CreateJobSchema`, the record of the file is looked up, the job
is added and the counter is raised. Any of the calls to Redis may fail, and a call that fails may
have been carried out.

`postJobs_exact` says when a request is accepted, what is queued for it and what a caller who is
turned away may conclude. `queue_holds_payloads` is about the queue after any number of requests
that run beside each other: whatever stands in it is read back as a payload by the schema of the
worker, under an id of its own. `accepted_is_queued` is about the callers: whoever is accepted
beside others finds the job that carries the request under the id that was given. The texts of the
package's complaints are a parameter.
-/

set_option autoImplicit false
set_option relaxedAutoImplicit false

namespace FileForge.Jobs.Submission

open Foundation.JsonValue Foundation.JsonText Foundation.JsonReader Foundation.JsonTrip
open Foundation.Interaction Foundation.Interleaving Foundation.RelyGuarantee
open Foundation.EcmaObject (protoName)
open Shared.Contract JobOptions Api.Answers Files.StoredRecords
open Files.Repository (FileRecord keyFor)
open Worker (counterPrefix)

/-! ### Requests -/

/-- What a request is refused for. -/
inductive Complaint
  | notObject
  | fileIdNotString
  | fileIdEmpty
  | unknownOperation
  | optionsNotRecord
  deriving DecidableEq, Repr

/-- `issue.path.join('.')`. -/
def Complaint.path : Complaint → String
  | .notObject => ""
  | .fileIdNotString | .fileIdEmpty => "fileId"
  | .unknownOperation => "operation"
  | .optionsNotRecord => "options"

structure CreateJobRequest where
  fileId : String
  operation : Operation
  options : Option Fields
  named : fileId ≠ ""

/-- `z.string().min(1)` -/
def readFileId : Option Json → Except Complaint { fileId : String // fileId ≠ "" }
  | some (.string text) => if h : text ≠ "" then .ok ⟨text, h⟩ else .error .fileIdEmpty
  | _ => .error .fileIdNotString

def readOperation (value : Option Json) : Except Complaint Operation :=
  match (value.bind Json.asString).bind OperationSchema.safeParse with
  | some operation => .ok operation
  | none => .error .unknownOperation

/-- `z.record(z.string(), z.unknown()).optional()`: a copy without `__proto__`. -/
def readRecord : Option Json → Except Complaint (Option Fields)
  | none => .ok none
  | some (.object fields) => .ok (some (fields.filter fun entry ↦ entry.1 ≠ protoName))
  | some _ => .error .optionsNotRecord

def complaintOf {α : Type} : Except Complaint α → List Complaint
  | .ok _ => []
  | .error complaint => [complaint]

/-- `CreateJobSchema.safeParse`. -/
def CreateJobSchema.safeParse : Option Json → Except (List Complaint) CreateJobRequest
  | some (.object fields) =>
    match readFileId (fields.lookup "fileId"), readOperation (fields.lookup "operation"),
      readRecord (fields.lookup "options") with
    | .ok fileId, .ok operation, .ok options =>
      .ok { fileId := fileId, operation := operation, options := options, named := fileId.2 }
    | fileId, operation, options =>
      .error (complaintOf fileId ++ complaintOf operation ++ complaintOf options)
  | _ => .error [.notObject]

/-- A request is read off its three fields. -/
theorem CreateJobSchema.fields_of_safeParse {fields : Fields} {request : CreateJobRequest}
    (h : CreateJobSchema.safeParse (some (.object fields)) = .ok request) :
    readFileId (fields.lookup "fileId") = .ok ⟨request.fileId, request.named⟩ ∧
      readOperation (fields.lookup "operation") = .ok request.operation ∧
      readRecord (fields.lookup "options") = .ok request.options := by
  unfold CreateJobSchema.safeParse at h
  dsimp only at h
  split at h
  · rename_i fileId operation options hfileId hoperation hoptions
    cases h
    exact ⟨hfileId, hoperation, hoptions⟩
  · cases h

theorem CreateJobSchema.exists_fields {body : Option Json} {request : CreateJobRequest}
    (h : CreateJobSchema.safeParse body = .ok request) :
    ∃ fields, body = some (.object fields) := by
  unfold CreateJobSchema.safeParse at h
  split at h
  · exact ⟨_, rfl⟩
  · cases h

/-- The data of the job that is added for a request. -/
def CreateJobRequest.payload (request : CreateJobRequest) : JobPayload :=
  { fileId := request.fileId, operation := request.operation
    options := request.options.getD [] }

/-- The payload as it is written. -/
def payloadJson (payload : JobPayload) : Json :=
  .object [("fileId", .string payload.fileId), ("operation", .string payload.operation.text),
    ("options", .object payload.options)]

/-! ### The handler -/

/-- The commands of Redis and of the queue. -/
inductive Call
  | get (key : String)
  /-- `queue.add`, with the text of the data. -/
  | add (name data : String)
  | incrby (counter : String) (amount : ℕ)

abbrev Reply : Call → Type
  | .get _ => Option String
  -- the id of the job
  | .add _ _ => String
  | .incrby _ _ => Unit

/-- A fault is the message of an exception. -/
abbrev Handler := Program Call Reply String

/-- `JobRouterDeps`, and what the application around the router is configured with. -/
structure Deps where
  countsJobs : Bool
  production : Bool
  message : Complaint → Option Json → String
  syntaxError : String → String

/-- `FileRepository.get`. -/
def getFile (fileId : String) : Handler (Option FileRecord) := do
  match ← Program.perform (Call.get (keyFor fileId)) with
  | none => return none
  | some raw => Program.ofExcept (recordOf raw)

def addJob (payload : JobPayload) : Handler String :=
  Program.perform (Call.add payload.operation.text (stringify (payloadJson payload)))

/-- `incrementCounter`: a failure is swallowed. -/
def incrementCounter (deps : Deps) (counter : String) : Handler Unit :=
  if deps.countsJobs then
    tryCatch (Program.perform (Call.incrby (counterPrefix ++ counter) 1)) fun _ ↦ return ()
  else return ()

def invalidRequest (deps : Deps) (body : Option Json) (complaints : List Complaint) : Answer where
  status := 422
  body := ({
    error := "invalid_request", message := "Check fileId and operation"
    issues := some (complaints.map fun complaint ↦
      { path := complaint.path, message := deps.message complaint body }) } : ApiError).toJson

def fileNotFound : Answer :=
  .problem 404 "file_not_found" "No upload with that id (it may have expired)"

def accepted (id : String) (request : CreateJobRequest) : Answer where
  status := 202
  body := .object [("id", .string id), ("state", .string "queued"),
    ("operation", .string request.operation.text), ("fileId", .string request.fileId)]

/-- The handler of `POST /jobs`. -/
def postJobs (deps : Deps) (body : Option Json) : Handler Answer :=
  match CreateJobSchema.safeParse body with
  | .error complaints => return invalidRequest deps body complaints
  | .ok request => do
    match ← getFile request.fileId with
    | none => return fileNotFound
    | some _ =>
      let id ← addJob request.payload
      incrementCounter deps "jobs_queued_total"
      return accepted id request

/-- The request from the text of its body on. -/
def serve (deps : Deps) (text : Option String) : Handler Answer := do
  let body ← Program.ofExcept (readBody deps.syntaxError text)
  postJobs deps body

/-! ### The services -/

/-- A job as the queue stores it. -/
structure QueuedJob where
  id : String
  name : String
  data : String
  deriving DecidableEq, Repr

structure State where
  texts : Texts
  jobs : List QueuedJob
  /-- How many ids have been given. -/
  given : ℕ
  counters : String → ℕ

/-- What becomes of a call: it completes, or it fails, carried out or not. -/
inductive Fate
  | completes
  | fails (message : String) (applied : Bool)
  deriving DecidableEq

structure Services where
  fate : ℕ → Fate := fun _ ↦ .completes
  now : ℕ → ℕ := fun _ ↦ 0
  /-- The id that the queue package gives to a job, by the number of ids given before. -/
  ids : ℕ → String := fun given ↦ Nat.repr (given + 1)

/-- A call that is carried out at a moment. -/
def carriedOut (ids : ℕ → String) (now : ℕ) : (request : Call) → State → Reply request × State
  | .get key, state => (Foundation.ExpiringStore.get state.texts now key, state)
  | .add name data, state =>
    (ids state.given, { state with
      jobs := state.jobs ++ [{ id := ids state.given, name := name, data := data }]
      given := state.given + 1 })
  | .incrby counter amount, state =>
    ((), { state with
      counters := Function.update state.counters counter (state.counters counter + amount) })

/-- A call takes effect at most once, when it is made. -/
def Services.world (services : Services) : Program.World Call Reply String State :=
  fun calls request state ↦
    let done := carriedOut services.ids (services.now calls) request state
    match services.fate calls with
    | .completes => (.ok done.1, done.2)
    | .fails message applied => (.error message, if applied then done.2 else state)

section World

variable {services : Services} {calls : ℕ} (request : Call) (state : State)

theorem world_of_completes (h : services.fate calls = .completes) :
    services.world calls request state =
      (.ok (carriedOut services.ids (services.now calls) request state).1,
        (carriedOut services.ids (services.now calls) request state).2) := by
  rw [Services.world, h]

theorem world_of_fails {message : String} {applied : Bool}
    (h : services.fate calls = .fails message applied) :
    services.world calls request state =
      (.error message, if applied then (carriedOut services.ids (services.now calls) request state).2
        else state) := by
  rw [Services.world, h]

end World

/-! ### What is queued -/

/-- The job that is added for a payload, under the id that it gets. -/
def jobOf (id : String) (payload : JobPayload) : QueuedJob where
  id := id
  name := payload.operation.text
  data := stringify (payloadJson payload)

/-- The queued job has the operation of a request for its name, and the worker reads the request in
its data. -/
def Carries (job : QueuedJob) (request : CreateJobRequest) : Prop :=
  job.name = request.operation.text ∧ ∃ data, parse job.data = some data ∧
    JobPayloadSchema.safeParse data = some {
      fileId := request.fileId, operation := request.operation
      options := settledFields (request.options.getD []) }

/-- The options of a request give every name once. -/
theorem distinct_options {body : Option Json} {request : CreateJobRequest}
    (hbody : ∀ value ∈ body, Distinct value)
    (h : CreateJobSchema.safeParse body = .ok request) :
    Distinct (.object (request.options.getD [])) := by
  obtain ⟨fields, rfl⟩ := CreateJobSchema.exists_fields h
  have hoptions := (CreateJobSchema.fields_of_safeParse h).2.2
  unfold readRecord at hoptions
  split at hoptions
  · rw [← Except.ok.inj hoptions]
    exact .object List.nodup_nil fun entry hentry ↦ absurd hentry List.not_mem_nil
  · rename_i found hfound
    rw [← Except.ok.inj hoptions]
    have hdistinct := ((hbody _ rfl).of_get hfound).of_object
    refine .object (hdistinct.1.sublist (List.filter_sublist.map Prod.fst)) fun entry hentry ↦ ?_
    exact hdistinct.2 entry (List.mem_filter.mp hentry).1
  · cases hoptions

theorem distinct_payloadJson {payload : JobPayload} (h : Distinct (.object payload.options)) :
    Distinct (payloadJson payload) := by
  have hnames : ["fileId", "operation", "options"].Nodup := by decide
  refine .object hnames ?_
  simp only [List.forall_mem_cons, List.not_mem_nil, false_imp_iff, implies_true, and_true]
  exact ⟨.string _, .string _, h⟩

/-- What is added for a request carries it. -/
theorem carries_of_added {body : Option Json} {request : CreateJobRequest}
    (hbody : ∀ value ∈ body, Distinct value)
    (h : CreateJobSchema.safeParse body = .ok request) (id : String) :
    Carries (jobOf id request.payload) request := by
  refine ⟨rfl, _, parse_stringify_settled (distinct_payloadJson (distinct_options hbody h)), ?_⟩
  show (OperationSchema.safeParse request.operation.text).bind _ = _
  rw [OperationSchema.safeParse_text]
  rfl

/-! ### One request -/

variable (deps : Deps) (services : Services)

/-- What `files.get` comes to. -/
def lookedUp (calls : ℕ) (state : State) (fileId : String) : Except String (Option FileRecord) :=
  match services.fate calls with
  | .completes => Files.StoredRecords.get state.texts (services.now calls) fileId
  | .fails message _ => .error message

theorem run_getFile (calls : ℕ) (state : State) (fileId : String) :
    Program.run services.world (getFile fileId) calls state =
      ⟨lookedUp services calls state fileId, calls + 1, state⟩ := by
  rw [getFile, Program.run_bind, Program.run_perform, lookedUp]
  cases hfate : services.fate calls with
  | completes =>
    rw [world_of_completes _ _ hfate, Files.StoredRecords.get]
    simp only [carriedOut, Program.Ended.andThen_ok]
    cases Foundation.ExpiringStore.get state.texts (services.now calls) (keyFor fileId) with
    | none => rfl
    | some raw => rfl
  | fails message applied =>
    rw [world_of_fails _ _ hfate]
    simp only [carriedOut, Program.Ended.andThen_error, ite_self]

/-- The counter makes no difference to the answer and to the queue. -/
theorem run_incrementCounter (calls : ℕ) (state : State) (counter : String) :
    (Program.run services.world (incrementCounter deps counter) calls state).outcome = .ok () ∧
      (Program.run services.world (incrementCounter deps counter) calls state).state.jobs =
        state.jobs := by
  rw [incrementCounter]
  split
  · rw [Program.run_handle, Program.run_perform]
    cases hfate : services.fate calls with
    | completes =>
      rw [world_of_completes _ _ hfate]
      exact ⟨rfl, rfl⟩
    | fails message applied =>
      rw [world_of_fails _ _ hfate]
      cases applied <;> exact ⟨rfl, rfl⟩
  · exact ⟨rfl, rfl⟩

/-- The job that is added next. -/
def added (services : Services) (state : State) (payload : JobPayload) : QueuedJob :=
  jobOf (services.ids state.given) payload

/-- An answer and the state that is left. -/
def exchange (text : Option String) (calls : ℕ) (state : State) : Answer × State :=
  let ended := Program.run services.world (serve deps text) calls state
  (answered deps.production ended.outcome, ended.state)

/-- The request is one for a job, and the file that it names is known. -/
def Admits (text : Option String) (calls : ℕ) (state : State) (request : CreateJobRequest) : Prop :=
  ∃ body record, readBody deps.syntaxError text = .ok body ∧
    CreateJobSchema.safeParse body = .ok request ∧
    lookedUp services calls state request.fileId = .ok (some record)

variable {deps services} {text : Option String} {calls : ℕ} {state : State}

theorem Admits.carries {request : CreateJobRequest}
    (h : Admits deps services text calls state request) :
    Carries (added services state request.payload) request := by
  obtain ⟨body, record, hbody, hrequest, -⟩ := h
  exact carries_of_added (distinct_of_readBody hbody) hrequest _

/-- A request that is admitted comes to the add. -/
theorem run_of_admits {request : CreateJobRequest}
    (h : Admits deps services text calls state request) :
    Program.run services.world (serve deps text) calls state =
      (Program.run services.world (addJob request.payload) (calls + 1) state).andThen
        fun id calls state ↦ Program.run services.world (do
          incrementCounter deps "jobs_queued_total"
          return accepted id request) calls state := by
  obtain ⟨body, record, hbody, hrequest, hfound⟩ := h
  have hserve : serve deps text = postJobs deps body := by
    rw [serve, hbody]
    rfl
  rw [hserve, postJobs, hrequest]
  simp only [Program.run_bind, run_getFile, hfound, Program.Ended.andThen_ok]

theorem exchange_of_completes {request : CreateJobRequest}
    (h : Admits deps services text calls state request)
    (hfate : services.fate (calls + 1) = .completes) :
    (exchange deps services text calls state).1 =
        accepted (added services state request.payload).id request ∧
      (exchange deps services text calls state).2.jobs =
        state.jobs ++ [added services state request.payload] := by
  rw [exchange, run_of_admits h, addJob, Program.run_perform, world_of_completes _ _ hfate]
  simp only [Program.Ended.andThen_ok, Program.run_bind]
  obtain ⟨houtcome, hjobs⟩ := run_incrementCounter deps services (calls + 1 + 1)
    (carriedOut services.ids (services.now (calls + 1))
      (.add request.payload.operation.text (stringify (payloadJson request.payload))) state).2
    "jobs_queued_total"
  rw [Program.Ended.andThen, houtcome]
  exact ⟨rfl, hjobs⟩

theorem exchange_of_fails {request : CreateJobRequest}
    (h : Admits deps services text calls state request) {message : String} {applied : Bool}
    (hfate : services.fate (calls + 1) = .fails message applied) :
    (exchange deps services text calls state).1 = internalError deps.production message ∧
      (exchange deps services text calls state).2.jobs =
        if applied then state.jobs ++ [added services state request.payload] else state.jobs := by
  rw [exchange, run_of_admits h, addJob, Program.run_perform, world_of_fails _ _ hfate]
  refine ⟨rfl, ?_⟩
  cases applied <;> rfl

theorem reports_internalError (production : Bool) (message : String) :
    ∃ problem, (internalError production message).Reports problem :=
  ⟨_, reports_problem (by decide) _ _⟩

theorem reports_invalidRequest (deps : Deps) (body : Option Json) (complaints : List Complaint) :
    ∃ problem, (invalidRequest deps body complaints).Reports problem := by
  have hstatus : 400 ≤ 422 := by decide
  exact ⟨_, hstatus, rfl⟩

/-- A request that is not admitted adds nothing, and its answer says why. -/
theorem exchange_of_not_admits
    (h : ∀ request, ¬ Admits deps services text calls state request) :
    (∃ problem, (exchange deps services text calls state).1.Reports problem) ∧
      (exchange deps services text calls state).2.jobs = state.jobs := by
  rw [exchange, serve]
  cases hbody : readBody deps.syntaxError text with
  | error message => exact ⟨reports_internalError _ _, rfl⟩
  | ok body =>
    rw [Program.ofExcept_ok_bind, postJobs]
    cases hrequest : CreateJobSchema.safeParse body with
    | error complaints => exact ⟨reports_invalidRequest deps body complaints, rfl⟩
    | ok request =>
      simp only [Program.run_bind, run_getFile]
      cases hfound : lookedUp services calls state request.fileId with
      | error message => exact ⟨reports_internalError _ _, rfl⟩
      | ok found =>
        cases found with
        | none => exact ⟨⟨_, reports_problem (by decide) _ _⟩, rfl⟩
        | some record => exact absurd ⟨body, record, hbody, hrequest, hfound⟩ (h request)

theorem status_ne_of_reports {answer : Answer} (h : ∃ problem, answer.Reports problem) :
    answer.status ≠ 202 := by
  obtain ⟨problem, hstatus, -⟩ := h
  omega

/-- Either the answer names a job that was queued for the request, or it is an error, and nothing
was queued unless the reply of the add was lost. -/
theorem exchange_cases (deps : Deps) (services : Services) (text : Option String) (calls : ℕ)
    (state : State) :
    (∃ request, Admits deps services text calls state request ∧
        services.fate (calls + 1) = .completes ∧
        (exchange deps services text calls state).1 =
          accepted (added services state request.payload).id request ∧
        (exchange deps services text calls state).2.jobs =
          state.jobs ++ [added services state request.payload]) ∨
      (∃ problem, (exchange deps services text calls state).1.Reports problem) ∧
        ((exchange deps services text calls state).2.jobs = state.jobs ∨
          ∃ request message, Admits deps services text calls state request ∧
            services.fate (calls + 1) = .fails message true ∧
            (exchange deps services text calls state).2.jobs =
              state.jobs ++ [added services state request.payload]) := by
  by_cases hadmits : ∃ request, Admits deps services text calls state request
  · obtain ⟨request, h⟩ := hadmits
    cases hfate : services.fate (calls + 1) with
    | completes =>
      obtain ⟨hanswer, hjobs⟩ := exchange_of_completes h hfate
      exact Or.inl ⟨request, h, rfl, hanswer, hjobs⟩
    | fails message applied =>
      obtain ⟨hanswer, hjobs⟩ := exchange_of_fails h hfate
      have hreports := reports_internalError deps.production message
      rw [← hanswer] at hreports
      refine Or.inr ⟨hreports, ?_⟩
      cases applied with
      | false => exact Or.inl hjobs
      | true => exact Or.inr ⟨request, message, h, rfl, hjobs⟩
  · obtain ⟨hreports, hjobs⟩ := exchange_of_not_admits fun request h ↦ hadmits ⟨request, h⟩
    exact Or.inr ⟨hreports, Or.inl hjobs⟩

/-- A request is accepted exactly when it is admitted and the add completes. Then one job is queued
that carries it, and the answer names it. A request that is not accepted gets an error, and nothing
is queued for it, unless the add was carried out and only its reply was lost. -/
theorem postJobs_exact (deps : Deps) (services : Services) (text : Option String) (calls : ℕ)
    (state : State) :
    ((exchange deps services text calls state).1.status = 202 ↔
        services.fate (calls + 1) = .completes ∧
          ∃ request, Admits deps services text calls state request) ∧
      ((exchange deps services text calls state).1.status = 202 →
        ∃ request job, Admits deps services text calls state request ∧ Carries job request ∧
          (exchange deps services text calls state).1 = accepted job.id request ∧
          (exchange deps services text calls state).2.jobs = state.jobs ++ [job]) ∧
      ((exchange deps services text calls state).1.status ≠ 202 →
        (∃ problem, (exchange deps services text calls state).1.Reports problem) ∧
          ((exchange deps services text calls state).2.jobs = state.jobs ∨
            ∃ request job message, Admits deps services text calls state request ∧
              Carries job request ∧ services.fate (calls + 1) = .fails message true ∧
              (exchange deps services text calls state).2.jobs = state.jobs ++ [job])) := by
  rcases exchange_cases deps services text calls state with
    ⟨request, h, hfate, hanswer, hjobs⟩ | ⟨hreports, hjobs⟩
  · have hstatus : (exchange deps services text calls state).1.status = 202 := by
      rw [hanswer]
      rfl
    exact ⟨iff_of_true hstatus ⟨hfate, request, h⟩,
      fun _ ↦ ⟨request, _, h, h.carries, hanswer, hjobs⟩, fun hne ↦ absurd hstatus hne⟩
  · have hstatus := status_ne_of_reports hreports
    refine ⟨iff_of_false hstatus ?_, fun heq ↦ absurd heq hstatus, fun _ ↦ ⟨hreports, ?_⟩⟩
    · rintro ⟨hfate, request, h⟩
      refine hstatus ?_
      rw [(exchange_of_completes h hfate).1]
      rfl
    · rcases hjobs with hsame | ⟨request, message, h, hfate, hjobs⟩
      · exact Or.inl hsame
      · exact Or.inr ⟨request, _, message, h, h.carries, hfate, hjobs⟩

/-! ### Many requests -/

/-- What a request may call: an add has the name and the data of a payload. -/
def Allowed : Call → Prop
  | .add name data => ∃ request, ∀ id, Carries { id := id, name := name, data := data } request
  | .get _ | .incrby _ _ => True

theorem allCalls_getFile (fileId : String) : (getFile fileId).AllCalls Allowed := by
  refine Program.allCalls_bind (Program.allCalls_perform trivial) fun found ↦ ?_
  cases found with
  | none => exact .finish _
  | some raw => exact .finish _

theorem allCalls_incrementCounter (deps : Deps) (counter : String) :
    (incrementCounter deps counter).AllCalls Allowed := by
  rw [incrementCounter]
  split
  · exact Program.allCalls_handle (Program.allCalls_perform trivial) fun _ ↦ .finish _
  · exact .finish _

theorem allCalls_serve (deps : Deps) (text : Option String) :
    (serve deps text).AllCalls Allowed := by
  rw [serve]
  cases hbody : readBody deps.syntaxError text with
  | error message => exact .finish _
  | ok body =>
    rw [Program.ofExcept_ok_bind, postJobs]
    cases hrequest : CreateJobSchema.safeParse body with
    | error complaints => exact .finish _
    | ok request =>
      refine Program.allCalls_bind (allCalls_getFile request.fileId) fun found ↦ ?_
      cases found with
      | none => exact .finish _
      | some record =>
        have hadd : Allowed (.add request.payload.operation.text
            (stringify (payloadJson request.payload))) :=
          ⟨request, carries_of_added (distinct_of_readBody hbody) hrequest⟩
        exact Program.allCalls_bind (Program.allCalls_perform hadd) fun id ↦
          Program.allCalls_bind (allCalls_incrementCounter deps _) fun _ ↦ .finish _

theorem eq_of_repr_eq {number other : ℕ} (h : Nat.repr number = Nat.repr other) :
    number = other := by
  have hdigits := congrArg String.toList h
  rw [Nat.toList_repr, Nat.toList_repr] at hdigits
  rw [← Foundation.EcmaNumber.ofDigitChars_toDigits number, hdigits,
    Foundation.EcmaNumber.ofDigitChars_toDigits]

/-- The jobs of the queue are read back, each under an id that was given once. -/
structure WellFormed (ids : ℕ → String) (state : State) : Prop where
  carries : ∀ job ∈ state.jobs, ∃ request, Carries job request
  distinct : (state.jobs.map QueuedJob.id).Nodup
  given : ∀ job ∈ state.jobs, ∃ number < state.given, job.id = ids number

theorem wellFormed_carriedOut {ids : ℕ → String} (hids : Function.Injective ids) (now : ℕ)
    {request : Call} {state : State} (hallowed : Allowed request) (h : WellFormed ids state) :
    WellFormed ids (carriedOut ids now request state).2 := by
  cases request with
  | get key => exact h
  | incrby counter amount => exact ⟨h.carries, h.distinct, h.given⟩
  | add name data =>
    obtain ⟨request, hcarries⟩ := hallowed
    refine ⟨List.forall_mem_append.mpr ⟨h.carries,
      List.forall_mem_singleton.mpr ⟨request, hcarries _⟩⟩, ?_, ?_⟩
    · show ((state.jobs ++ [_]).map QueuedJob.id).Nodup
      rw [List.map_append, List.map_singleton, List.nodup_append]
      refine ⟨h.distinct, List.nodup_singleton _, ?_⟩
      rintro id hid other hother rfl
      obtain ⟨job, hjob, rfl⟩ := List.mem_map.mp hid
      obtain ⟨number, hnumber, hgiven⟩ := h.given job hjob
      rw [List.mem_singleton.mp hother] at hgiven
      exact hnumber.ne (hids hgiven).symm
    · show ∀ job ∈ state.jobs ++ [_], ∃ number < state.given + 1, job.id = ids number
      refine List.forall_mem_append.mpr ⟨fun job hjob ↦ ?_,
        List.forall_mem_singleton.mpr ⟨state.given, Nat.lt_succ_self _, rfl⟩⟩
      obtain ⟨number, hnumber, hgiven⟩ := h.given job hjob
      exact ⟨number, Nat.lt_succ_of_lt hnumber, hgiven⟩

/-- Nothing has been asked for. -/
def emptyQueue (texts : Texts) : State :=
  { texts := texts, jobs := [], given := 0, counters := fun _ ↦ 0 }

/-- In every run of requests beside each other, whatever fails and whatever is lost, the queue holds
payloads that the worker reads, under distinct ids. Assumes: a queue package that gives no id
twice. -/
theorem queue_holds_payloads (deps : Deps) (services : Services) (texts : Texts)
    (hids : Function.Injective services.ids) {actions : List (Action (Option String))}
    {after : Pool Call Reply String Answer State}
    (hrun : (pool services.world (serve deps) (emptyQueue texts)).run actions = some after) :
    WellFormed services.ids after.state := by
  refine pool_induction (allCalls_serve deps) ?_ ?_ hrun
  · exact ⟨fun _ hjob ↦ absurd hjob List.not_mem_nil, List.nodup_nil,
      fun _ hjob ↦ absurd hjob List.not_mem_nil⟩
  · intro calls request state hallowed hstate
    cases hfate : services.fate calls with
    | completes =>
      rw [world_of_completes _ _ hfate]
      exact wellFormed_carriedOut hids _ hallowed hstate
    | fails message applied =>
      rw [world_of_fails _ _ hfate]
      cases applied with
      | false => exact hstate
      | true => exact wellFormed_carriedOut hids _ hallowed hstate

def table : FileRecord where
  id := "a"
  storageKey := "uploads/a.csv"
  originalName := "table.csv"
  mimeType := "text/csv"
  size := 3
  uploadedAt := ""

def quietDeps : Deps where
  countsJobs := true
  production := true
  message := fun _ _ ↦ ""
  syntaxError := fun _ ↦ ""

/-- Two requests for one file, the first of them lost with its process. -/
def twoRequests : List (Action (Option String)) := [
  .start (some "\x7b\"fileId\":\"a\",\"operation\":\"csv.validate\"\x7d"),
  .start (some "\x7b\"fileId\":\"a\",\"operation\":\"csv.transform\"\x7d"),
  .advance 0, .advance 0, .lose 0, .advance 0, .advance 0, .advance 0]

theorem queue_holds_payloads_twoRequests :
    ∃ after, (pool (Services.world {}) (serve quietDeps)
        (emptyQueue (save 1 Foundation.ExpiringStore.empty 0 table))).run twoRequests =
          some after ∧ after.state.jobs.length = 2 ∧
      WellFormed ({} : Services).ids after.state := by
  have hlength : ((pool (Services.world {}) (serve quietDeps)
      (emptyQueue (save 1 Foundation.ExpiringStore.empty 0 table))).run twoRequests).map
        (fun after ↦ after.state.jobs.length) = some 2 := by
    decide +kernel
  obtain ⟨after, hrun, hjobs⟩ := Option.map_eq_some_iff.mp hlength
  have hids : Function.Injective ({} : Services).ids := fun number other heq ↦
    Nat.succ_injective (eq_of_repr_eq heq)
  exact ⟨after, hrun, hjobs, queue_holds_payloads quietDeps {} _ hids hrun⟩

/-! ### What a caller finds -/

/-- What a call of a request does to the queue, which others only make longer. -/
def May : (request : Call) → List QueuedJob → Except String (Reply request) →
    List QueuedJob → Prop
  | .add name data, before, reply, after =>
    before <+: after ∧ ∀ id, reply = .ok id → { id := id, name := name, data := data } ∈ after
  | .get _, before, _, after | .incrby _ _, before, _, after => before <+: after

/-- The job that an answer names is in the queue, and carries the request of the text. -/
def Kept (deps : Deps) (text : Option String) (outcome : Except String Answer)
    (jobs : List QueuedJob) : Prop :=
  ∀ answer, outcome = .ok answer → answer.status = 202 → ∃ body request, ∃ job ∈ jobs,
    readBody deps.syntaxError text = .ok body ∧ CreateJobSchema.safeParse body = .ok request ∧
      answer = accepted job.id request ∧ Carries job request

theorem may_carriedOut (ids : ℕ → String) (now : ℕ) (request : Call) (state : State) :
    May request state.jobs (.ok (carriedOut ids now request state).1)
      (carriedOut ids now request state).2.jobs := by
  cases request with
  | get key => exact List.prefix_rfl
  | incrby counter amount => exact List.prefix_rfl
  | add name data =>
    refine ⟨List.prefix_append _ _, fun id hid ↦ ?_⟩
    rw [← Except.ok.inj hid]
    exact List.mem_append_right _ List.mem_cons_self

theorem may_world (services : Services) (calls : ℕ) (request : Call) (state : State) :
    May request state.jobs (services.world calls request state).1
      (services.world calls request state).2.jobs := by
  have hmay := may_carriedOut services.ids (services.now calls) request state
  cases hfate : services.fate calls with
  | completes =>
    rw [world_of_completes _ _ hfate]
    exact hmay
  | fails message applied =>
    rw [world_of_fails _ _ hfate]
    cases request with
    | get key => cases applied <;> exact List.prefix_rfl
    | incrby counter amount => cases applied <;> exact List.prefix_rfl
    | add name data =>
      refine ⟨?_, fun id hid ↦ by cases hid⟩
      cases applied with
      | false => exact List.prefix_rfl
      | true => exact List.prefix_append _ _

theorem prefix_of_may {request : Call} {before after : List QueuedJob}
    {reply : Except String (Reply request)} (h : May request before reply after) :
    before <+: after := by
  cases request with
  | add name data => exact h.1
  | get key => exact h
  | incrby counter amount => exact h

theorem safe_serve (deps : Deps) (text : Option String) (jobs : List QueuedJob) :
    Safe (· <+: ·) May (Kept deps text) jobs (serve deps text) := by
  have hrefl : ∀ jobs : List QueuedJob, jobs <+: jobs := fun _ ↦ List.prefix_rfl
  have hother : ∀ (answer : Answer) (jobs : List QueuedJob), answer.status ≠ 202 →
      Safe (· <+: ·) May (Kept deps text) jobs (.finish (.ok answer)) :=
    fun answer _ hne ↦ .finish fun _ _ _ heq hstatus ↦ absurd (Except.ok.inj heq ▸ hstatus) hne
  rw [serve]
  cases hbody : readBody deps.syntaxError text with
  | error message => exact .finish fun _ _ _ heq ↦ by cases heq
  | ok body =>
    rw [Program.ofExcept_ok_bind, postJobs]
    cases hrequest : CreateJobSchema.safeParse body with
    | error complaints =>
      exact hother _ _ (status_ne_of_reports (reports_invalidRequest deps body complaints))
    | ok request =>
      refine safe_bind hrefl (safe_true jobs _) (fun found later _ ↦ ?_)
        fun _ _ _ _ heq ↦ by cases heq
      cases found with
      | none => exact hother _ _ (status_ne_of_reports ⟨_, reports_problem (by decide) _ _⟩)
      | some record =>
        have hadd : Safe (· <+: ·) May (fun outcome jobs ↦ ∀ id, outcome = .ok id →
            jobOf id request.payload ∈ jobs) later (addJob request.payload) := by
          show Safe _ _ _ later (.call (Call.add _ _) .finish)
          exact .call fun now reply after _ hmay ↦ .finish fun last hlast id hid ↦
            hlast.subset (hmay.2 id hid)
        refine safe_bind hrefl hadd (fun id queued hqueued ↦ ?_) fun _ _ _ _ heq ↦ by cases heq
        have hcount : Safe (· <+: ·) May (fun _ jobs ↦ jobOf id request.payload ∈ jobs) queued
            (incrementCounter deps "jobs_queued_total") :=
          safe_of_kept (jobOf id request.payload ∈ ·)
            (fun view later hlater hview ↦ hlater.subset hview)
            (fun _ now reply after _ hnow hmay ↦ (prefix_of_may hmay).subset hnow)
            (Program.allCalls_true _) (hqueued id rfl)
        refine safe_bind hrefl hcount (fun _ counted hcounted ↦ ?_) fun _ _ _ _ heq ↦ by cases heq
        refine .finish fun last hlast answer heq _ ↦ ?_
        cases heq
        exact ⟨body, request, _, hlast.subset hcounted, hbody, hrequest, rfl,
          carries_of_added (distinct_of_readBody hbody) hrequest id⟩

/-- A request with a number of its own. -/
abbrev Numbered := ℕ × Option String

/-- In every run of requests beside each other, whatever fails and whatever is lost: whoever is
accepted finds the job in the queue, and in it what this caller asked for. -/
theorem accepted_is_queued (deps : Deps) (services : Services) {state : State}
    {actions : List (Action Numbered)} {after : Pool Call Reply String Answer State}
    (hrun : (pool services.world (fun asked : Numbered ↦ serve deps asked.2) state).run actions =
      some after)
    (hnumbered : ((actions.filterMap started).map Prod.fst).Nodup) {index : ℕ} {answer : Answer}
    (hanswer : after.running[index]? = some (.finish (.ok answer)))
    (hstatus : answer.status = 202) :
    ∃ caller, (callers actions)[index]? = some caller ∧
      ∃ body request, ∃ job ∈ after.state.jobs,
        readBody deps.syntaxError caller.request.2 = .ok body ∧
          CreateJobSchema.safeParse body = .ok request ∧ answer = accepted job.id request ∧
          Carries job request := by
  obtain ⟨caller, hcaller, hkept⟩ := pool_safe Prod.fst (fun _ state ↦ state.jobs)
    (fun _ _ ↦ True) (· <+: ·) May (fun asked : Numbered ↦ Kept deps asked.2)
    (fun _ ↦ List.prefix_rfl) (fun _ _ _ ↦ List.IsPrefix.trans)
    (fun _ calls request state _ _ ↦ may_world services calls request state)
    (fun _ _ calls request state _ _ ↦ prefix_of_may (may_world services calls request state))
    (fun asked ↦ Program.allCalls_true _) (fun asked ↦ safe_serve deps asked.2) hrun hnumbered
    hanswer
  exact ⟨caller, hcaller, hkept answer rfl hstatus⟩

/-- What a program has answered. -/
def answerOf : Handler Answer → Option Answer
  | .finish (.ok answer) => some answer
  | _ => none

theorem eq_of_answerOf {program : Handler Answer} {answer : Answer}
    (h : answerOf program = some answer) : program = .finish (.ok answer) := by
  unfold answerOf at h
  split at h
  · rw [Option.some.inj h]
  · cases h

/-- A request that is accepted after another has been lost. -/
def acceptedFirst : List (Action Numbered) := [
  .start (0, some "\x7b\"fileId\":\"a\",\"operation\":\"csv.validate\"\x7d"),
  .start (1, some "\x7b\"fileId\":\"a\",\"operation\":\"csv.transform\"\x7d"),
  .advance 0, .advance 1, .lose 0, .advance 0, .advance 0]

theorem accepted_is_queued_acceptedFirst :
    ∃ after answer caller, (pool (Services.world {})
        (fun asked : Numbered ↦ serve quietDeps asked.2)
        (emptyQueue (save 1 Foundation.ExpiringStore.empty 0 table))).run acceptedFirst =
          some after ∧
      after.running[0]? = some (.finish (.ok answer)) ∧ answer.status = 202 ∧
      (callers acceptedFirst)[0]? = some caller ∧ caller.request.1 = 1 ∧
      ∃ body request, ∃ job ∈ after.state.jobs,
        readBody quietDeps.syntaxError caller.request.2 = .ok body ∧
          CreateJobSchema.safeParse body = .ok request ∧ answer = accepted job.id request ∧
          Carries job request := by
  have hrun : (((pool (Services.world {}) (fun asked : Numbered ↦ serve quietDeps asked.2)
      (emptyQueue (save 1 Foundation.ExpiringStore.empty 0 table))).run acceptedFirst).bind
        fun after ↦ (after.running[0]?.bind answerOf).map Answer.status) = some 202 := by
    decide +kernel
  obtain ⟨after, hafter, hhead⟩ := Option.bind_eq_some_iff.mp hrun
  obtain ⟨answer, hfirst, hstatus⟩ := Option.map_eq_some_iff.mp hhead
  obtain ⟨program, hprogram, hended⟩ := Option.bind_eq_some_iff.mp hfirst
  have hanswer : after.running[0]? = some (.finish (.ok answer)) := by
    rw [← eq_of_answerOf hended]
    exact hprogram
  have hnumbered : ((acceptedFirst.filterMap started).map Prod.fst).Nodup := by
    show [0, 1].Nodup
    decide
  obtain ⟨caller, hcaller, hqueued⟩ :=
    accepted_is_queued quietDeps {} hafter hnumbered hanswer hstatus
  have hsecond : ((callers acceptedFirst)[0]?).map (fun caller ↦ caller.request.1) = some 1 := by
    decide +kernel
  rw [hcaller, Option.map_some, Option.some.injEq] at hsecond
  exact ⟨after, answer, caller, hafter, hanswer, hstatus, hcaller, hsecond, hqueued⟩

/-! ### The counter -/

/-- What a call adds to the counter of queued jobs. -/
def costOf : Call → ℕ
  | .incrby _ amount => amount
  | .get _ | .add _ _ => 0

/-- A job whose id comes back has been added. -/
def gainOf : (request : Call) → Except String (Reply request) → ℕ
  | .add _ _, .ok _ => 1
  | _, _ => 0

theorem covered_incrementCounter (deps : Deps) (counter : String) {answer : Answer} :
    Covered costOf gainOf 1 (do
      incrementCounter deps counter
      return answer : Handler Answer) := by
  rw [incrementCounter]
  split
  · refine .call (Nat.le_refl 1) fun reply ↦ ?_
    cases reply with
    | ok reply => exact .finish _ _
    | error fault => exact .finish _ _
  · exact .finish _ _

theorem covered_serve (deps : Deps) (text : Option String) :
    Covered costOf gainOf 0 (serve deps text) := by
  rw [serve]
  cases hbody : readBody deps.syntaxError text with
  | error message => exact .finish _ _
  | ok body =>
    rw [Program.ofExcept_ok_bind, postJobs]
    cases hrequest : CreateJobSchema.safeParse body with
    | error complaints => exact .finish _ _
    | ok request =>
      have hfree : (getFile request.fileId).AllCalls fun call ↦ costOf call = 0 := by
        refine Program.allCalls_bind (Program.allCalls_perform rfl) fun found ↦ ?_
        cases found with
        | none => exact .finish _
        | some raw => exact .finish _
      refine covered_bind_of_free hfree fun found ↦ ?_
      cases found with
      | none => exact .finish _ _
      | some record =>
        exact covered_perform_bind (Nat.le_refl 0) fun id ↦ covered_incrementCounter deps _

/-- The counter of queued jobs. -/
def jobsQueued (state : State) : ℕ := state.counters (counterPrefix ++ "jobs_queued_total")

theorem spends_carriedOut (ids : ℕ → String) (now : ℕ) (request : Call) (state : State) :
    jobsQueued (carriedOut ids now request state).2 ≤ jobsQueued state + costOf request ∧
      state.jobs.length ≤ (carriedOut ids now request state).2.jobs.length ∧
      ∀ reply : Reply request, state.jobs.length + gainOf request (.ok reply) ≤
        (carriedOut ids now request state).2.jobs.length := by
  cases request with
  | get key => exact ⟨Nat.le_refl _, Nat.le_refl _, fun _ ↦ Nat.le_refl _⟩
  | add name data =>
    refine ⟨Nat.le_refl _, ?_, fun _ ↦ ?_⟩ <;> simp [carriedOut, gainOf]
  | incrby counter amount =>
    refine ⟨?_, Nat.le_refl _, fun _ ↦ Nat.le_refl _⟩
    by_cases hcounter : counterPrefix ++ "jobs_queued_total" = counter
    · rw [← hcounter]
      simp [jobsQueued, carriedOut, costOf]
    · simp [jobsQueued, carriedOut, costOf, Function.update_of_ne hcounter]

/-- Whatever fails and whatever is lost, the counter never counts more jobs than were added. -/
theorem jobsQueued_le (deps : Deps) (services : Services) (texts : Texts)
    {actions : List (Action (Option String))} {after : Pool Call Reply String Answer State}
    (hrun : (pool services.world (serve deps) (emptyQueue texts)).run actions = some after) :
    jobsQueued after.state ≤ after.state.jobs.length := by
  have hstart : jobsQueued (emptyQueue texts) ≤ (emptyQueue texts).jobs.length := Nat.le_refl 0
  refine pool_covered jobsQueued (fun state ↦ state.jobs.length) (covered_serve deps) hstart ?_ hrun
  intro calls request state
  obtain ⟨hspent, hkept, hgained⟩ :=
    spends_carriedOut services.ids (services.now calls) request state
  cases hfate : services.fate calls with
  | completes =>
    rw [world_of_completes _ _ hfate]
    exact ⟨hspent, hgained _⟩
  | fails message applied =>
    rw [world_of_fails _ _ hfate]
    have hnothing : gainOf request (.error message) = 0 := by cases request <;> rfl
    rw [hnothing]
    cases applied with
    | false => exact ⟨Nat.le_add_right _ _, Nat.le_refl _⟩
    | true => exact ⟨hspent, hkept⟩

theorem jobsQueued_le_twoRequests :
    ∃ after, (pool (Services.world {}) (serve quietDeps)
        (emptyQueue (save 1 Foundation.ExpiringStore.empty 0 table))).run twoRequests =
          some after ∧ jobsQueued after.state = 1 ∧
      jobsQueued after.state ≤ after.state.jobs.length := by
  have hcount : ((pool (Services.world {}) (serve quietDeps)
      (emptyQueue (save 1 Foundation.ExpiringStore.empty 0 table))).run twoRequests).map
        (fun after ↦ jobsQueued after.state) = some 1 := by
    decide +kernel
  obtain ⟨after, hrun, hcounted⟩ := Option.map_eq_some_iff.mp hcount
  exact ⟨after, hrun, hcounted, jobsQueued_le quietDeps {} _ hrun⟩

end FileForge.Jobs.Submission
