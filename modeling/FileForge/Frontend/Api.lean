import FileForge.Jobs.Submission

/-!
# Talking to the backend

`frontend/src/api.ts`. A response comes as a status and a text. A failing one becomes an
`ApiRequestError` with what the server said, and the body of another is parsed by the schema of the
call. The schemas of `src/shared/contract.ts` that the calls need are here beside them.

`createJob_comes_back` follows a call through both sides: the text that the browser sends, the
handler of `POST /jobs` with services that may fail, and the text that comes back.
-/

set_option autoImplicit false
set_option relaxedAutoImplicit false

namespace FileForge.Frontend.Api

open Foundation.JsonValue Foundation.JsonText Foundation.JsonReader Foundation.JsonTrip
open Foundation.EcmaObject (protoName)
open Shared.Contract Api.Answers Jobs.JobOptions Jobs.Submission

/-! ### Responses -/

/-- A response as the browser receives it. -/
structure HttpResponse where
  status : ℕ
  text : String
  deriving DecidableEq, Repr

/-- `response.ok` -/
def HttpResponse.Ok (response : HttpResponse) : Prop := 200 ≤ response.status ∧ response.status ≤ 299

instance (response : HttpResponse) : Decidable response.Ok :=
  inferInstanceAs (Decidable (200 ≤ response.status ∧ response.status ≤ 299))

/-- The response that an answer travels as. -/
def sent (answer : Answer) : HttpResponse :=
  { status := answer.status, text := stringify answer.body }

/-- What a call is rejected with. -/
inductive ClientError
  /-- `ApiRequestError` -/
  | request (message : String) (status : ℕ) (code : Option String)
  /-- The body does not have the shape of the schema. -/
  | shape
  /-- `fetch` was rejected. -/
  | unreachable
  deriving DecidableEq, Repr

def handleResponse (response : HttpResponse) : Except ClientError Json :=
  let body := (parse response.text).getD .null
  if response.Ok then .ok body
  else match ApiErrorSchema.safeParse body with
    | some problem => .error (.request problem.message response.status (some problem.error))
    | none =>
      .error (.request ("Request failed (" ++ toString response.status ++ ")") response.status none)

/-- A call, from its response on. -/
def fetched {α : Type} (schema : Json → Option α) : Option HttpResponse → Except ClientError α
  | none => .error .unreachable
  | some response => do
    let body ← handleResponse response
    match schema body with
    | some value => .ok value
    | none => .error .shape

/-! ### The calls -/

/-- `UploadResponseSchema`. -/
structure UploadReply where
  id : String
  originalName : String
  mimeType : String
  size : ℚ
  uploadedAt : String

def UploadResponseSchema.safeParse (value : Json) : Option UploadReply := do
  let id ← (← value.get "id").asString
  let originalName ← (← value.get "originalName").asString
  let mimeType ← (← value.get "mimeType").asString
  let size ← (← value.get "size").asNumber
  let uploadedAt ← (← value.get "uploadedAt").asString
  return {
    id := id, originalName := originalName, mimeType := mimeType, size := size
    uploadedAt := uploadedAt }

/-- `CreateJobResponseSchema`. -/
structure CreateJobReply where
  id : String
  state : String
  operation : Operation
  fileId : String

def CreateJobResponseSchema.safeParse (value : Json) : Option CreateJobReply := do
  let id ← (← value.get "id").asString
  let state ← (← value.get "state").asString
  guard (JobStateSchema.accepts state)
  let operation ← OperationSchema.safeParse (← (← value.get "operation").asString)
  let fileId ← (← value.get "fileId").asString
  return { id := id, state := state, operation := operation, fileId := fileId }

/-- `SignedLinkResponseSchema`. -/
structure LinkReply where
  url : String
  signed : Bool
  expiresAt : Option String

def asBool : Json → Option Bool
  | .bool value => some value
  | _ => none

def SignedLinkResponseSchema.safeParse (value : Json) : Option LinkReply := do
  let url ← (← value.get "url").asString
  let signed ← asBool (← value.get "signed")
  let expiresAt ← optionalString (value.get "expiresAt")
  return { url := url, signed := signed, expiresAt := expiresAt }

def uploadFile : Option HttpResponse → Except ClientError UploadReply :=
  fetched UploadResponseSchema.safeParse

def createJob : Option HttpResponse → Except ClientError CreateJobReply :=
  fetched CreateJobResponseSchema.safeParse

def getDownloadUrl : Option HttpResponse → Except ClientError LinkReply :=
  fetched SignedLinkResponseSchema.safeParse

/-- `JSON.stringify({ fileId, operation, options })` -/
def createJobFields (fileId : String) (operation : Operation) (options : Fields) : Fields :=
  [("fileId", .string fileId), ("operation", .string operation.text), ("options", .object options)]

/-! ### Reading a response -/

section Reading

variable {α : Type} (schema : Json → Option α) {answer : Answer}

/-- What reports an error is read as that error. -/
theorem fetched_of_reports {problem : ApiError} (h : answer.Reports problem) :
    fetched schema (some (sent answer)) =
      .error (.request problem.message answer.status (some problem.error)) := by
  obtain ⟨hstatus, hbody⟩ := h
  have hfail : ¬ (sent answer).Ok := fun hok ↦ by
    have hle : answer.status ≤ 299 := hok.2
    omega
  have hread : (parse (sent answer).text).getD .null = problem.toJson := by
    show (parse (stringify answer.body)).getD .null = _
    rw [hbody, parse_stringify (readable_error problem), Option.getD_some]
  have hresponse : handleResponse (sent answer) =
      .error (.request problem.message answer.status (some problem.error)) := by
    rw [handleResponse, hread, if_neg hfail, ApiErrorSchema.safeParse_toJson]
    rfl
  rw [fetched, hresponse]
  rfl

/-- A call that is rejected with what the response says: its status, and the message and the code in
its text. -/
def RejectedBy (response : HttpResponse) (came : Except ClientError α) : Prop :=
  ∃ problem : ApiError, 400 ≤ response.status ∧ parse response.text = some problem.toJson ∧
    came = .error (.request problem.message response.status (some problem.error))

theorem rejectedBy_of_reports (h : ∃ problem, answer.Reports problem) :
    RejectedBy (sent answer) (fetched schema (some (sent answer))) := by
  obtain ⟨problem, hreports⟩ := h
  refine ⟨problem, hreports.1, ?_, fetched_of_reports schema hreports⟩
  show parse (stringify answer.body) = _
  rw [hreports.2, parse_stringify (readable_error problem)]

/-- What succeeds is read by the schema. -/
theorem fetched_of_ok {value : α} (hok : (sent answer).Ok) (hbody : Readable answer.body)
    (hschema : schema answer.body = some value) :
    fetched schema (some (sent answer)) = .ok value := by
  have hread : (parse (sent answer).text).getD .null = answer.body := by
    show (parse (stringify answer.body)).getD .null = _
    rw [parse_stringify hbody, Option.getD_some]
  have hresponse : handleResponse (sent answer) = .ok answer.body := by
    rw [handleResponse, hread, if_pos hok]
  rw [fetched, hresponse]
  show (match schema answer.body with | some value => _ | none => _) = _
  rw [hschema]

end Reading

/-! ### Asking for a job -/

/-- The options as the worker gets them: infinite numbers are `null`, and `__proto__` is left
out. -/
def carriedOptions (options : Fields) : Fields :=
  (settledFields options).filter fun entry ↦ entry.1 ≠ protoName

/-- The answer to the request of `createJob`, and the state of the services afterwards. -/
def exchangeCreateJob (deps : Deps) (services : Services) (fileId : String)
    (operation : Operation) (options : Fields) (calls : ℕ) (state : State) : Answer × State :=
  exchange deps services (some (stringify (.object (createJobFields fileId operation options))))
    calls state

/-- What `createJob` comes to, and the state of the services afterwards. -/
def runCreateJob (deps : Deps) (services : Services) (fileId : String) (operation : Operation)
    (options : Fields) (calls : ℕ) (state : State) : Except ClientError CreateJobReply × State :=
  let exchanged := exchangeCreateJob deps services fileId operation options calls state
  (createJob (some (sent exchanged.1)), exchanged.2)

theorem distinct_createJobFields {fileId : String} {operation : Operation} {options : Fields}
    (h : Distinct (.object options)) :
    Distinct (.object (createJobFields fileId operation options)) := by
  have hnames : ["fileId", "operation", "options"].Nodup := by decide
  refine .object hnames ?_
  simp only [createJobFields, List.forall_mem_cons, List.not_mem_nil, false_imp_iff, implies_true,
    and_true]
  exact ⟨.string _, .string _, h⟩

theorem settledFields_carriedOptions {options : Fields} (h : Distinct (.object options)) :
    settledFields (carriedOptions options) = carriedOptions options := by
  have hreadable : Readable (.object (carriedOptions options)) := by
    obtain ⟨hnames, hfields⟩ := h.of_object
    rw [carriedOptions, settledFields_eq]
    refine .object ?_ fun entry hentry ↦ ?_
    · refine List.Nodup.sublist (List.filter_sublist.map Prod.fst) ?_
      rw [List.map_map]
      exact hnames
    · obtain ⟨before, hbefore, rfl⟩ := List.mem_map.mp (List.mem_filter.mp hentry).1
      exact (hfields before hbefore).readable_settled
  have hsettled := settled_of_readable hreadable
  rw [settled_object] at hsettled
  exact Json.object.inj hsettled

/-- The handler reads what the browser has written. -/
theorem request_of_admits {deps : Deps} {services : Services} {fileId : String}
    {operation : Operation} {options : Fields} {calls : ℕ} {state : State}
    {request : CreateJobRequest} (hoptions : Distinct (.object options))
    (h : Admits deps services
      (some (stringify (.object (createJobFields fileId operation options)))) calls state request) :
    request.fileId = fileId ∧ request.operation = operation ∧
      request.options = some (carriedOptions options) := by
  obtain ⟨body, record, hbody, hrequest, -⟩ := h
  have hlength : (stringify (.object (createJobFields fileId operation options))).utf8ByteSize ≤
      bodyLimit := by
    by_contra hlong
    rw [readBody, if_pos (not_le.mp hlong)] at hbody
    cases hbody
  rw [readBody_stringify (distinct_createJobFields hoptions) hlength] at hbody
  rw [← Except.ok.inj hbody] at hrequest
  obtain ⟨hfileId, hoperation, hrecord⟩ := CreateJobSchema.fields_of_safeParse hrequest
  have hread : readOperation (some (.string operation.text)) = .ok operation := by
    rw [readOperation, Option.bind_some, Json.asString, Option.bind_some,
      OperationSchema.safeParse_text]
  refine ⟨?_, ?_, ?_⟩
  · change readFileId (some (.string fileId)) = _ at hfileId
    rw [readFileId] at hfileId
    split_ifs at hfileId
    exact (congrArg Subtype.val (Except.ok.inj hfileId)).symm
  · change readOperation (some (.string operation.text)) = _ at hoperation
    rw [hread] at hoperation
    exact (Except.ok.inj hoperation).symm
  · exact (Except.ok.inj hrecord).symm

/-- The worker reads the payload in the queued job. -/
def Holds (job : QueuedJob) (payload : JobPayload) : Prop :=
  job.name = payload.operation.text ∧
    ∃ data, parse job.data = some data ∧ JobPayloadSchema.safeParse data = some payload

theorem holds_of_admits {deps : Deps} {services : Services} {fileId : String}
    {operation : Operation} {options : Fields} {calls : ℕ} {state : State}
    {request : CreateJobRequest} (hoptions : Distinct (.object options))
    (h : Admits deps services
      (some (stringify (.object (createJobFields fileId operation options)))) calls state request) :
    Holds (added services state request.payload)
      { fileId := fileId, operation := operation, options := carriedOptions options } := by
  obtain ⟨hfileId, hoperation, hrecord⟩ := request_of_admits hoptions h
  obtain ⟨hname, data, hparse, hpayload⟩ := h.carries
  rw [hfileId, hoperation, hrecord, Option.getD_some, settledFields_carriedOptions hoptions]
    at hpayload
  rw [hoperation] at hname
  exact ⟨hname, data, hparse, hpayload⟩

theorem createJob_accepted (id : String) (request : CreateJobRequest) :
    createJob (some (sent (accepted id request))) = .ok {
      id := id, state := "queued", operation := request.operation, fileId := request.fileId } := by
  have hnames : ["id", "state", "operation", "fileId"].Nodup := by decide
  have hok : (sent (accepted id request)).Ok := by
    show 200 ≤ 202 ∧ 202 ≤ 299
    decide
  refine fetched_of_ok _ hok (.object hnames ?_) ?_
  · simp only [List.forall_mem_cons, List.not_mem_nil, false_imp_iff, implies_true, and_true]
    exact ⟨.string _, .string _, .string _, .string _⟩
  · show (OperationSchema.safeParse request.operation.text).bind _ = _
    rw [OperationSchema.safeParse_text]
    rfl

theorem createJob_of_reports {answer : Answer} {problem : ApiError} (h : answer.Reports problem) :
    createJob (some (sent answer)) =
      .error (.request problem.message answer.status (some problem.error)) :=
  fetched_of_reports _ h

/-- A call of `createJob` comes back with a job or with what the server said: the status of its
response, and the message and the code in it. With a job, it is the one that was queued, and the
worker reads in it the file, the operation and the options of the call. Without one, nothing was
queued, unless it was queued and the reply of the queue was lost. -/
theorem createJob_comes_back (deps : Deps) (services : Services) (fileId : String)
    (operation : Operation) {options : Fields} (hoptions : Distinct (.object options)) (calls : ℕ)
    (state : State) :
    (∃ job, (runCreateJob deps services fileId operation options calls state).1 =
          .ok { id := job.id, state := "queued", operation := operation, fileId := fileId } ∧
        (runCreateJob deps services fileId operation options calls state).2.jobs =
          state.jobs ++ [job] ∧
        Holds job { fileId := fileId, operation := operation, options := carriedOptions options }) ∨
      RejectedBy (sent (exchangeCreateJob deps services fileId operation options calls state).1)
          (runCreateJob deps services fileId operation options calls state).1 ∧
        ((runCreateJob deps services fileId operation options calls state).2.jobs = state.jobs ∨
          ∃ job lost, services.fate (calls + 1) = .fails lost true ∧
            (runCreateJob deps services fileId operation options calls state).2.jobs =
              state.jobs ++ [job] ∧
            Holds job {
              fileId := fileId, operation := operation, options := carriedOptions options }) := by
  simp only [runCreateJob, exchangeCreateJob]
  rcases exchange_cases deps services
    (some (stringify (.object (createJobFields fileId operation options)))) calls state with
    ⟨request, h, -, hanswer, hjobs⟩ | ⟨hreports, hjobs⟩
  · obtain ⟨hfileId, hoperation, -⟩ := request_of_admits hoptions h
    refine Or.inl ⟨_, ?_, hjobs, holds_of_admits hoptions h⟩
    rw [hanswer, createJob_accepted, hfileId, hoperation]
  · refine Or.inr ⟨rejectedBy_of_reports CreateJobResponseSchema.safeParse hreports, ?_⟩
    rcases hjobs with hsame | ⟨request, message, h, hfate, hqueued⟩
    · exact Or.inl hsame
    · exact Or.inr ⟨_, message, hfate, hqueued, holds_of_admits hoptions h⟩

theorem createJob_comes_back_columns :
    ∃ job, (runCreateJob quietDeps {} "a" .csvTransform [("columns", .array [.string "city"])] 0
          (emptyQueue (Files.StoredRecords.save 1 Foundation.ExpiringStore.empty 0 table))).1 =
        .ok { id := job.id, state := "queued", operation := .csvTransform, fileId := "a" } ∧
      Holds job { fileId := "a", operation := .csvTransform
                  options := carriedOptions [("columns", .array [.string "city"])] } := by
  have hoptions : Distinct (.object [("columns", .array [.string "city"])]) := by
    refine .object (List.nodup_singleton _) (List.forall_mem_singleton.mpr (.array ?_))
    exact List.forall_mem_singleton.mpr (.string _)
  have hcode : (runCreateJob quietDeps {} "a" .csvTransform [("columns", .array [.string "city"])] 0
      (emptyQueue (Files.StoredRecords.save 1 Foundation.ExpiringStore.empty 0 table))).1.isOk =
        true := by
    decide +kernel
  rcases createJob_comes_back quietDeps {} "a" .csvTransform hoptions 0
    (emptyQueue (Files.StoredRecords.save 1 Foundation.ExpiringStore.empty 0 table)) with
    ⟨job, hreply, -, hholds⟩ | ⟨⟨problem, -, -, herror⟩, -⟩
  · exact ⟨job, hreply, hholds⟩
  · rw [herror] at hcode
    cases hcode

end FileForge.Frontend.Api
