import Mathlib.Tactic.Common

/-!
# Errors that a job can end with

The error classes of `src/jobs/errors.ts` with the messages their constructors build,
`UnrecoverableError` of the queue, every other `Error`, and thrown values that are no `Error`.
-/

set_option autoImplicit false
set_option relaxedAutoImplicit false

namespace FileForge.Jobs.Errors

inductive JobError
  | missingFile (fileId : String)
  | invalidImage (reason : String)
  | invalidOptions (reason : String)
  | invalidCsv (reason : String)
  /-- `UnrecoverableError` -/
  | unrecoverable (message : String)
  /-- An `Error` of no class above. -/
  | error (message : String)
  /-- A thrown value that is no `Error`, as its text. -/
  | thrown (text : String)
  deriving DecidableEq, Repr

/-- `error instanceof Error ? error.message : String(error)`. -/
def JobError.message : JobError → String
  | .missingFile fileId => "No stored file with id " ++ fileId
  | .invalidImage reason => "Not a readable image: " ++ reason
  | .invalidOptions reason => reason
  | .invalidCsv reason => "Not readable as CSV: " ++ reason
  | .unrecoverable message => message
  | .error message => message
  | .thrown text => text

/-- `isPermanentFailure`: whether a failure is one that a retry could never fix. -/
def isPermanentFailure : JobError → Bool
  | .missingFile _ | .invalidImage _ | .invalidCsv _ | .invalidOptions _ => true
  | _ => false

/-- `error instanceof UnrecoverableError`. -/
def JobError.isUnrecoverable : JobError → Bool
  | .unrecoverable _ => true
  | _ => false

/-- What the retry policy makes of a failure: a permanent one is marked unrecoverable under its own
message. -/
def JobError.marked (error : JobError) : JobError :=
  if isPermanentFailure error then .unrecoverable error.message else error

end FileForge.Jobs.Errors
