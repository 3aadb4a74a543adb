import FileForge.Foundation.JsonValue
import Mathlib.Algebra.Order.Ring.Unbundled.Rat
import Mathlib.Data.List.Infix

/-!
# The shapes that the API speaks

The schemas of `src/shared/contract.ts` that the job code needs: a live event, as a value of its
type (`JobEvent`), as the JSON object that is written for it (`toJson`), and as what `safeParse`
accepts of an arbitrary JSON value (`JobEventSchema.safeParse`). The schema passes over unknown
fields, takes an absent field for `undefined` only where the field is optional, and holds the
progress between 0 and 100.

`safeParse_toJson` is the round trip: the schema gives back a written event whose progress is in
range and refuses every other.

`JobStatus` is the body of `GET /jobs/:id`, and `accepts_toJson` says which bodies the schema of the
client takes: the state and the operation are of their enumerations, and the result is a job's.
-/

set_option autoImplicit false
set_option relaxedAutoImplicit false

namespace FileForge.Shared.Contract

open Foundation.JsonValue

/-! ### Live events -/

/-- The states of a job that an event can report. -/
inductive EventState
  | queued
  | processing
  | completed
  | failed
  deriving DecidableEq, Repr

/-- The state as it is written. -/
def EventState.text : EventState → String
  | .queued => "queued"
  | .processing => "processing"
  | .completed => "completed"
  | .failed => "failed"

/-- `z.enum` of the four states. -/
def EventState.ofText (text : String) : Option EventState :=
  [.queued, .processing, .completed, .failed].find? fun state ↦ state.text == text

@[simp] theorem EventState.ofText_text (state : EventState) :
    EventState.ofText state.text = some state := by
  cases state <;> rfl

/-- The states after which a job is not touched again. -/
def EventState.Terminal (state : EventState) : Prop := state = .completed ∨ state = .failed

instance (state : EventState) : Decidable state.Terminal :=
  inferInstanceAs (Decidable (state = .completed ∨ state = .failed))

/-- One message from `GET /jobs/:id/events`. -/
structure JobEvent where
  jobId : String
  state : EventState
  progress : ℚ
  operation : Option String := none
  result : Option Json := none
  error : Option String := none

/-- The object that `JSON.stringify` writes for an event. -/
def JobEvent.toJson (event : JobEvent) : Json :=
  .object (
    field "jobId" (some (.string event.jobId)) ++
    (field "state" (some (.string event.state.text)) ++
    (field "progress" (some (.number event.progress)) ++
    (field "operation" (event.operation.map .string) ++
    (field "result" event.result ++
    (field "error" (event.error.map .string) ++ []))))))

/-- `z.number().min(0).max(100)`. -/
def JobEvent.Valid (event : JobEvent) : Prop := 0 ≤ event.progress ∧ event.progress ≤ 100

instance (event : JobEvent) : Decidable event.Valid :=
  inferInstanceAs (Decidable (0 ≤ event.progress ∧ event.progress ≤ 100))

/-- An optional text field: absent, or a string. -/
def optionalString : Option Json → Option (Option String)
  | none => some none
  | some value => value.asString.map some

/-- `JobEventSchema.safeParse`. -/
def JobEventSchema.safeParse (value : Json) : Option JobEvent := do
  let jobId ← (← value.get "jobId").asString
  let state ← EventState.ofText (← (← value.get "state").asString)
  let progress ← (← value.get "progress").asNumber
  guard (0 ≤ progress ∧ progress ≤ 100)
  let operation ← optionalString (value.get "operation")
  let error ← optionalString (value.get "error")
  return {
    jobId := jobId, state := state, progress := progress, operation := operation,
    result := value.get "result", error := error }

theorem optionalString_map (value : Option String) :
    optionalString (value.map .string) = some value := by
  cases value <;> rfl

/-- The fields of a written event. -/
theorem JobEvent.get_toJson (event : JobEvent) :
    event.toJson.get "jobId" = some (.string event.jobId) ∧
      event.toJson.get "state" = some (.string event.state.text) ∧
      event.toJson.get "progress" = some (.number event.progress) ∧
      event.toJson.get "operation" = event.operation.map .string ∧
      event.toJson.get "result" = event.result ∧
      event.toJson.get "error" = event.error.map .string := by
  have hresult : (field "error" (event.error.map Json.string) ++ []).lookup "result" = none := by
    rw [lookup_field_append_of_ne (by decide)]
    rfl
  have hoperation : (field "result" event.result ++
      (field "error" (event.error.map Json.string) ++ [])).lookup "operation" = none := by
    rw [lookup_field_append_of_ne (by decide), lookup_field_append_of_ne (by decide)]
    rfl
  refine ⟨rfl, rfl, rfl, ?_, ?_, ?_⟩
  · exact lookup_field_append_self "operation" _ hoperation
  · show List.lookup "result" (field "operation" _ ++ _) = _
    rw [lookup_field_append_of_ne (by decide)]
    exact lookup_field_append_self "result" _ hresult
  · show List.lookup "error" (field "operation" _ ++ _) = _
    rw [lookup_field_append_of_ne (by decide), lookup_field_append_of_ne (by decide)]
    exact lookup_field_append_self "error" _ rfl

/-- The schema gives back a valid event that was written, and refuses an invalid one. -/
theorem safeParse_toJson (event : JobEvent) :
    JobEventSchema.safeParse event.toJson = if event.Valid then some event else none := by
  obtain ⟨hjobId, hstate, hprogress, hoperation, hresult, herror⟩ := event.get_toJson
  unfold JobEventSchema.safeParse
  rw [hjobId, hstate, hprogress, hoperation, hresult, herror, optionalString_map,
    optionalString_map]
  by_cases hvalid : event.Valid
  · have hrange : 0 ≤ event.progress ∧ event.progress ≤ 100 := hvalid
    simp [Json.asString, Json.asNumber, hvalid, hrange]
  · have hrange : ¬ (0 ≤ event.progress ∧ event.progress ≤ 100) := hvalid
    simp [Json.asString, Json.asNumber, hvalid, hrange]

/-! ### The status of a job -/

/-- `Operation`. -/
inductive Operation
  | imageResize
  | imageConvert
  | imageThumbnail
  | csvValidate
  | csvTransform
  deriving DecidableEq, Repr

/-- The operation as it is written. -/
def Operation.text : Operation → String
  | .imageResize => "image.resize"
  | .imageConvert => "image.convert"
  | .imageThumbnail => "image.thumbnail"
  | .csvValidate => "csv.validate"
  | .csvTransform => "csv.transform"

/-- `OperationSchema`. -/
def OperationSchema.accepts (text : String) : Bool :=
  [Operation.imageResize, .imageConvert, .imageThumbnail, .csvValidate, .csvTransform].any
    fun operation ↦ operation.text == text

@[simp] theorem OperationSchema.accepts_text (operation : Operation) :
    OperationSchema.accepts operation.text = true := by
  cases operation <;> rfl

/-- The kinds of file that have operations. -/
inductive FileKind
  | image
  | csv
  deriving DecidableEq, Repr

/-- `OPERATIONS_BY_KIND`. -/
def operationsByKind : FileKind → List Operation
  | .image => [.imageResize, .imageConvert, .imageThumbnail]
  | .csv => [.csvValidate, .csvTransform]

def kindForMimeType (mimeType : String) : Option FileKind :=
  if "image/".toList <+: mimeType.toList then some .image
  else if "csv".toList <:+: mimeType.toList ∨ mimeType = "text/plain" then some .csv
  else none

/-- `UploadResponse`: the fields on which the page decides. -/
structure UploadResponse where
  id : String
  mimeType : String

/-- `JobStateSchema`. -/
def JobStateSchema.accepts (text : String) : Bool :=
  ["queued", "processing", "retrying", "completed", "failed"].any (· == text)

/-- `JobResult`: the keys of the outputs, and details under names. -/
structure JobResult where
  outputs : List String
  details : Option (List (String × Json)) := none

/-- The result as it is written. -/
def JobResult.toJson (result : JobResult) : Json :=
  .object (field "outputs" (some (.array (result.outputs.map .string))) ++
    (field "details" (result.details.map .object) ++ []))

/-- `z.array(z.string())`. -/
def isStringArray : Json → Bool
  | .array elements => elements.all fun element ↦ element.asString.isSome
  | _ => false

/-- `z.record(z.string(), z.unknown())`. -/
def isRecord : Json → Bool
  | .object _ => true
  | _ => false

/-- `JobResultSchema`. -/
def JobResultSchema.accepts (value : Json) : Bool :=
  isRecord value && (value.get "outputs").any isStringArray && (value.get "details").all isRecord

theorem JobResultSchema.accepts_toJson (result : JobResult) :
    JobResultSchema.accepts result.toJson = true := by
  have houtputs : isStringArray (.array (result.outputs.map .string)) = true := by
    rw [isStringArray, List.all_map, List.all_eq_true]
    exact fun _ _ ↦ rfl
  have hdetails : result.toJson.get "details" = result.details.map .object := by
    show List.lookup "details" (field "outputs" _ ++ _) = _
    rw [lookup_field_append_of_ne (by decide)]
    exact lookup_field_append_self "details" _ rfl
  have hget : result.toJson.get "outputs" = some (.array (result.outputs.map .string)) := rfl
  rw [JobResultSchema.accepts, hget, hdetails, Option.any_some, houtputs]
  cases result.details with
  | none => rfl
  | some details => rfl

/-- What `GET /jobs/:id` answers. -/
structure JobStatus where
  id : String
  state : String
  progress : ℚ
  operation : String
  fileId : String
  attempts : ℕ
  result : Option Json := none
  error : Option String := none

/-- The object that is sent. -/
def JobStatus.toJson (status : JobStatus) : Json :=
  .object (
    field "id" (some (.string status.id)) ++
    (field "state" (some (.string status.state)) ++
    (field "progress" (some (.number status.progress)) ++
    (field "operation" (some (.string status.operation)) ++
    (field "fileId" (some (.string status.fileId)) ++
    (field "attempts" (some (.number status.attempts)) ++
    (field "result" status.result ++
    (field "error" (status.error.map .string) ++ []))))))))

/-- `z.nullish` of a schema, for a field. -/
def nullish (accepts : Json → Bool) (value : Option Json) : Bool :=
  value.all fun present ↦ isNull present || accepts present
where
  isNull : Json → Bool
    | .null => true
    | _ => false

/-- `JobStatusSchema`. -/
def JobStatusSchema.accepts (value : Json) : Bool :=
  ((value.get "id").bind Json.asString).isSome &&
  ((value.get "state").bind Json.asString).any JobStateSchema.accepts &&
  ((value.get "progress").bind Json.asNumber).isSome &&
  ((value.get "operation").bind Json.asString).any OperationSchema.accepts &&
  ((value.get "fileId").bind Json.asString).isSome &&
  (value.get "attempts").all (fun attempts ↦ attempts.asNumber.isSome) &&
  nullish JobResultSchema.accepts (value.get "result") &&
  nullish (fun error ↦ error.asString.isSome) (value.get "error")

/-- The schema takes a status when the state and the operation are of their enumerations, and the
result, where there is one, is that of a job or `null`. -/
theorem JobStatusSchema.accepts_toJson (status : JobStatus) :
    JobStatusSchema.accepts status.toJson =
      (JobStateSchema.accepts status.state && OperationSchema.accepts status.operation &&
        nullish JobResultSchema.accepts status.result) := by
  have hresult : status.toJson.get "result" = status.result := by
    show List.lookup "result" (field "id" _ ++ (field "state" _ ++ (field "progress" _ ++
      (field "operation" _ ++ (field "fileId" _ ++ (field "attempts" _ ++ _)))))) = _
    iterate 6 rw [lookup_field_append_of_ne (by decide)]
    refine lookup_field_append_self "result" _ ?_
    rw [lookup_field_append_of_ne (by decide)]
    rfl
  have herror : status.toJson.get "error" = status.error.map .string := by
    show List.lookup "error" (field "id" _ ++ (field "state" _ ++ (field "progress" _ ++
      (field "operation" _ ++ (field "fileId" _ ++ (field "attempts" _ ++ (field "result" _ ++
        _))))))) = _
    iterate 7 rw [lookup_field_append_of_ne (by decide)]
    exact lookup_field_append_self "error" _ rfl
  have hgood : nullish (fun error ↦ error.asString.isSome) (status.error.map .string) = true := by
    cases status.error with
    | none => rfl
    | some error => rfl
  have hstate : status.toJson.get "state" = some (.string status.state) := rfl
  have hoperation : status.toJson.get "operation" = some (.string status.operation) := rfl
  have hid : status.toJson.get "id" = some (.string status.id) := rfl
  have hfileId : status.toJson.get "fileId" = some (.string status.fileId) := rfl
  have hprogress : status.toJson.get "progress" = some (.number status.progress) := rfl
  have hattempts : status.toJson.get "attempts" = some (.number status.attempts) := rfl
  rw [JobStatusSchema.accepts, hid, hstate, hprogress, hoperation, hfileId, hattempts, hresult,
    herror, hgood]
  simp [Json.asString, Json.asNumber]

end FileForge.Shared.Contract
