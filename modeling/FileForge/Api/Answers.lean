import FileForge.Foundation.JsonTrip
import FileForge.Shared.Contract

/-!
# Bodies of requests and answers

What the handlers of `src/app.ts` have in common. A request's body is read by `express.json` before
a handler sees it (`readBody`), an answer is a status with a JSON body, and a handler that throws is
answered by the error handler of the application (`internalError`), which gives the message away
outside production only.

Every failing answer has one shape, `ApiErrorSchema`, and `ApiErrorSchema.safeParse_toJson` is its
round trip.
-/

set_option autoImplicit false
set_option relaxedAutoImplicit false

namespace FileForge.Api.Answers

open Foundation.JsonValue Foundation.JsonText Foundation.JsonReader Foundation.JsonTrip
open Shared.Contract

/-! ### Errors -/

/-- A complaint about one field of a request. -/
structure Issue where
  path : String
  message : String
  deriving DecidableEq, Repr

/-- `ApiError`. -/
structure ApiError where
  error : String
  message : String
  issues : Option (List Issue) := none
  deriving DecidableEq, Repr

def Issue.toJson (issue : Issue) : Json :=
  .object [("path", .string issue.path), ("message", .string issue.message)]

/-- The error as it is written. -/
def ApiError.toJson (problem : ApiError) : Json :=
  .object (("error", .string problem.error) :: ("message", .string problem.message) ::
    field "issues" (problem.issues.map fun issues ↦ .array (issues.map Issue.toJson)))

def readIssue (value : Json) : Option Issue := do
  let path ← (← value.get "path").asString
  let message ← (← value.get "message").asString
  return { path := path, message := message }

/-- `z.array(z.object({ path, message })).optional()` -/
def readIssues : Option Json → Option (Option (List Issue))
  | none => some none
  | some (.array elements) => (elements.mapM readIssue).map some
  | some _ => none

/-- `ApiErrorSchema.safeParse`. -/
def ApiErrorSchema.safeParse (value : Json) : Option ApiError := do
  let error ← (← value.get "error").asString
  let message ← (← value.get "message").asString
  let issues ← readIssues (value.get "issues")
  return { error := error, message := message, issues := issues }

@[simp] theorem readIssue_toJson (issue : Issue) : readIssue issue.toJson = some issue := rfl

theorem mapM_readIssue (issues : List Issue) :
    (issues.map Issue.toJson).mapM readIssue = some issues := by
  induction issues with
  | nil => rfl
  | cons issue rest ih => rw [List.map_cons, List.mapM_cons, ih, readIssue_toJson]; rfl

theorem ApiError.get_toJson (problem : ApiError) :
    problem.toJson.get "error" = some (.string problem.error) ∧
      problem.toJson.get "message" = some (.string problem.message) ∧
      problem.toJson.get "issues" =
        problem.issues.map fun issues ↦ .array (issues.map Issue.toJson) := by
  refine ⟨rfl, rfl, ?_⟩
  show List.lookup "issues" (field "issues" _) = _
  cases problem.issues with
  | none => rfl
  | some issues => rfl

/-- Every error that is written is read back. -/
theorem ApiErrorSchema.safeParse_toJson (problem : ApiError) :
    ApiErrorSchema.safeParse problem.toJson = some problem := by
  obtain ⟨herror, hmessage, hissues⟩ := problem.get_toJson
  have hread : readIssues (problem.issues.map fun issues ↦ .array (issues.map Issue.toJson)) =
      some problem.issues := by
    cases problem.issues with
    | none => rfl
    | some issues =>
      show ((issues.map Issue.toJson).mapM readIssue).map some = _
      rw [mapM_readIssue, Option.map_some]
  rw [ApiErrorSchema.safeParse, herror, hmessage, hissues, hread]
  rfl

theorem readable_issue (issue : Issue) : Readable issue.toJson := by
  have hnames : ["path", "message"].Nodup := by decide
  refine .object hnames ?_
  simp only [List.forall_mem_cons, List.not_mem_nil, false_imp_iff, implies_true, and_true]
  exact ⟨.string _, .string _⟩

theorem readable_error (problem : ApiError) : Readable problem.toJson := by
  have hnames : ["error", "message", "issues"].Nodup := by decide
  have hfew : ["error", "message"].Nodup := by decide
  rw [ApiError.toJson]
  cases problem.issues with
  | none =>
    refine .object hfew ?_
    simp only [Option.map_none, field, Option.toList_none, List.forall_mem_cons,
      List.not_mem_nil, false_imp_iff, implies_true, and_true]
    exact ⟨.string _, .string _⟩
  | some issues =>
    refine .object hnames ?_
    simp only [Option.map_some, field, Option.toList_some, List.forall_mem_cons,
      List.not_mem_nil, false_imp_iff, implies_true, and_true]
    exact ⟨.string _, .string _, .array (List.forall_mem_map.mpr fun issue _ ↦
      readable_issue issue)⟩

/-! ### Answers -/

/-- What a handler sends with `res.status(status).json(body)`. -/
structure Answer where
  status : ℕ
  body : Json

/-- An answer that reports an error. -/
def Answer.problem (status : ℕ) (error message : String) : Answer :=
  { status := status, body := ({ error := error, message := message } : ApiError).toJson }

/-- The error handler of `createApp`. -/
def internalError (production : Bool) (message : String) : Answer :=
  .problem 500 "internal_error" (if production then "An unexpected error occurred" else message)

/-- The answer to a request whose handler has ended. -/
def answered (production : Bool) : Except String Answer → Answer
  | .ok answer => answer
  | .error message => internalError production message

/-- The answer reports an error, with a status that says so. -/
def Answer.Reports (answer : Answer) (problem : ApiError) : Prop :=
  400 ≤ answer.status ∧ answer.body = problem.toJson

theorem reports_problem {status : ℕ} (h : 400 ≤ status) (error message : String) :
    (Answer.problem status error message).Reports { error := error, message := message } :=
  ⟨h, rfl⟩

/-! ### Bodies of requests -/

/-- The limit of `express.json`, `1mb`. -/
def bodyLimit : ℕ := 1024 * 1024

/-- What `express.json` throws for a body that is too long. -/
def tooLarge : String := "request entity too large"

/-- The body that a handler sees. A request without a body has none, and an empty one counts as an
object. What is neither an object nor an array is refused like a text that is not JSON, with a
message that the engine words. -/
def readBody (syntaxError : String → String) : Option String → Except String (Option Json)
  | none => .ok none
  | some text =>
    if text.utf8ByteSize > bodyLimit then .error tooLarge
    else if text = "" then .ok (some (.object []))
    else match parse text with
      | some (.object fields) => .ok (some (.object fields))
      | some (.array elements) => .ok (some (.array elements))
      | _ => .error (syntaxError text)

/-- A body that a handler sees gives every name once. -/
theorem distinct_of_readBody {syntaxError : String → String} {text : Option String}
    {body : Option Json} (h : readBody syntaxError text = .ok body) :
    ∀ value ∈ body, Distinct value := by
  cases text with
  | none =>
    cases h
    exact fun _ hvalue ↦ by cases hvalue
  | some text =>
    rw [readBody] at h
    split_ifs at h
    · cases h
      rintro value ⟨⟩
      exact .object List.nodup_nil fun entry hentry ↦ absurd hentry List.not_mem_nil
    · split at h
      · rename_i hparse
        cases h
        rintro value ⟨⟩
        exact parse_distinct hparse
      · rename_i hparse
        cases h
        rintro value ⟨⟩
        exact parse_distinct hparse
      · cases h

/-- An object that a client has written reaches the handler, unless it is too long. -/
theorem readBody_stringify {syntaxError : String → String} {fields : List (String × Json)}
    (h : Distinct (.object fields))
    (hlength : (stringify (.object fields)).utf8ByteSize ≤ bodyLimit) :
    readBody syntaxError (some (stringify (.object fields))) =
      .ok (some (.object (settledFields fields))) := by
  have hread := parse_stringify_settled h
  have hne : stringify (.object fields) ≠ "" := by
    intro hempty
    have hlist := congrArg String.toList hempty
    rw [stringify, String.toList_ofList, chars_object] at hlist
    cases hlist
  rw [readBody, if_neg (Nat.not_lt.mpr hlength), if_neg hne, hread]
  rfl

end FileForge.Api.Answers
