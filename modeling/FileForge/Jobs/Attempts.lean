import FileForge.Foundation.Interruption
import FileForge.Foundation.WeakestPrecondition
import FileForge.Jobs.Processors

/-!
# Attempts of a job

A deployment in which every call succeeds that the data lets succeed (`Env`): Redis answers with
what is stored, a file is there or is not, and what a chain of streams makes of the stored bytes is
computed from the packages. A stage that fails on the data fails as its place in the chain has it
(`failing`), so that a decode error of a stage that is awaited is thrown.

`Trouble` is what the environment may add: a call that fails, streams that fail in any order and at
any moment of the chain, or a report of progress that nobody awaits. An attempt with trouble is a
run in the interrupted world.

A chain that fails, on the data or by trouble, has opened its target or not, and has written to it
as far as it came. What it leaves there is any bytes (`Env.leaves`).

`attempt_relays` is what the processors do with trouble of any kind: they make no call after it, and
end with an error if it was thrown. `met_attempt` finds the call that was struck.
-/

set_option autoImplicit false
set_option relaxedAutoImplicit false

namespace FileForge.Jobs.Attempts

open Foundation Foundation.JsonValue Foundation.Interaction Foundation.PosixPath
open Foundation.FileTree (Bytes)
open Foundation.Interruption
open Foundation.StreamChain (Layout Action)
open Shared.Contract Files.Repository Csv Csv.Streams Errors JobOptions
open Processors
open Storage.LocalStorage (StoredFile)
open Worker (ProcessorResult)

/-! ### What the data allows -/

/-- A deployment at the moment of an attempt. -/
structure Env extends Runtime where
  db : Records
  now : ℕ
  /-- What a chain that fails has put at its target, or that it has not come to open it. -/
  leaves : Chain → Option Bytes

/-- The stored files, and what trouble has left behind: whether it was met, and the failures that
nobody handles. -/
structure Held where
  files : AbsolutePath → Option Bytes
  met : Bool := false
  unhandled : List JobError := []

def Held.write (held : Held) (target : AbsolutePath) (bytes : Bytes) : Held :=
  { held with files := Function.update held.files target (some bytes) }

/-- The file that a chain writes. -/
def target : Chain → Option AbsolutePath
  | .rewriteImage _ _ target | .writeReport _ target | .rewriteCsv _ _ target => some target
  | .probe _ | .readBack _ | .inspect _ _ => none

/-- The files after a call that has failed, if a chain has left something. -/
def Held.leave (held : Held) (request : Call) (left : Chain → Option Bytes) : Held :=
  match request with
  | .chain chain =>
    match target chain, left chain with
    | some path, some bytes => held.write path bytes
    | _, _ => held
  | _ => held

def missing : JobError := .error "ENOENT: no such file or directory"

/-- The failure of a stage of a chain, as the awaiting function meets it. -/
def failing (name : ChainName) (stage : ℕ) (error : JobError) : Fault :=
  if name.piped ≤ stage then .thrown error else .unsettled

/-- The bytes that a chain reads. -/
def readSource (name : ChainName) (files : AbsolutePath → Option Bytes) (source : AbsolutePath) :
    Except Fault Bytes :=
  match files source with
  | some bytes => .ok bytes
  | none => .error (failing name 0 missing)

section Flow

variable (packages : Packages) (files : AbsolutePath → Option Bytes)

def probed (source : AbsolutePath) : Except Fault Metadata := do
  let bytes ← readSource .probe files source
  (packages.metadata bytes).mapError fun message ↦ failing .probe 1 (.error message)

def edited (source : AbsolutePath) (edit : ImageEdit) : Except Fault Bytes := do
  let bytes ← readSource .rewriteImage files source
  (packages.edit edit bytes).mapError fun message ↦ failing .rewriteImage 1 (.error message)

/-- The rows of a text, and the error that the parser ends with. -/
def parsed (delimiter : Delimiter) (options : ParseOptions) (bytes : Bytes) : Flow Row :=
  let (records, cut) := packages.records delimiter.text bytes
  let rows := packages.parser.parse options records
  { rows with failure := rows.failure.or (cut.map .error) }

/-- The pipeline of `validateCsv` on a text: an error of `inspect` comes first, then the one that
the parser ends with. -/
def inspectText (options : Delimited Validate.ValidateOptions) (bytes : Bytes) :
    Except Fault Validate.ValidationReport :=
  let rows := parsed packages options.delimiter Validate.parseOptions bytes
  match Validate.inspectRows options.options (rows.items.map Validate.fieldsOf), rows.failure with
  | .error error, _ => .error (failing .inspect 2 error)
  | .ok _, some error => .error (failing .inspect 1 error)
  | .ok final, none => .ok final.report

def inspected (source : AbsolutePath) (options : Delimited Validate.ValidateOptions) :
    Except Fault Validate.ValidationReport := do
  let bytes ← readSource .inspect files source
  inspectText packages options bytes

/-- The pipeline of `transformCsv` on a text: the counters of `reshape` and the text of the written
file. -/
def reshapeText (options : Delimited Transform.TransformOptions) (bytes : Bytes) :
    Except Fault (Transform.ReshapeState × Bytes) :=
  let rows := parsed packages options.delimiter (Transform.parseOptions options.options) bytes
  let (final, flow) := Transform.reshapeRows options.options {} rows.items
  let written := packages.stringifier.write options.options.hasHeader
    (Transform.listedColumns options.options) flow.items
  match written, flow.failure, rows.failure with
  | .error message, _, _ => .error (failing .rewriteCsv 3 (.error message))
  | .ok _, some error, _ => .error (failing .rewriteCsv 2 error)
  | .ok _, none, some error => .error (failing .rewriteCsv 1 error)
  | .ok lines, none, none => .ok (final, packages.csvText lines)

def reshaped (source : AbsolutePath) (options : Delimited Transform.TransformOptions) :
    Except Fault (Transform.ReshapeState × Bytes) := do
  let bytes ← readSource .rewriteCsv files source
  reshapeText packages options bytes

/-! A stage that fails on the data is one that is awaited. -/

variable {packages files} {source : AbsolutePath} {bytes : Bytes}

/-- On a text that splits into records the pipeline reports what `csv.validate` does. -/
theorem inspectText_eq {options : Delimited Validate.ValidateOptions} {records : List Record}
    (hrecords : packages.records options.delimiter.text bytes = (records, none)) :
    (inspectText packages options bytes).mapError (Fault.relabel Transform.asInvalidCsv) =
      ((Validate.validateCsv packages.parser options.options records).map
        Validate.ValidateResult.report).mapError .thrown := by
  have hrows : parsed packages options.delimiter Validate.parseOptions bytes =
      packages.parser.parse Validate.parseOptions records := by
    simp [parsed, hrecords]
  simp only [inspectText, hrows, Validate.validateCsv]
  cases Validate.inspectRows options.options
      ((packages.parser.parse Validate.parseOptions records).items.map Validate.fieldsOf) <;>
    cases (packages.parser.parse Validate.parseOptions records).failure <;> rfl

/-- On a text that splits into records the pipeline writes what `csv.transform` does. -/
theorem reshapeText_eq {options : Delimited Transform.TransformOptions} {records : List Record}
    (hrecords : packages.records options.delimiter.text bytes = (records, none)) :
    (reshapeText packages options bytes).mapError (Fault.relabel Transform.asInvalidCsv) =
      ((Transform.transformCsv packages.parser packages.stringifier options.options records).map
        fun result ↦ ((⟨result.rowsIn, result.rowsOut, result.rowsDropped, result.columns⟩ :
          Transform.ReshapeState), packages.csvText result.file)).mapError .thrown := by
  have hrows : parsed packages options.delimiter (Transform.parseOptions options.options) bytes =
      packages.parser.parse (Transform.parseOptions options.options) records := by
    simp [parsed, hrecords]
  simp only [reshapeText, hrows, Transform.transformCsv, Transform.reshape]
  cases packages.stringifier.write options.options.hasHeader
      (Transform.listedColumns options.options) (Transform.reshapeRows options.options {}
        (packages.parser.parse (Transform.parseOptions options.options) records).items).2.items <;>
    cases (Transform.reshapeRows options.options {}
      (packages.parser.parse (Transform.parseOptions options.options) records).items).2.failure <;>
    cases (packages.parser.parse (Transform.parseOptions options.options) records).failure <;> rfl

variable (hfile : files source = some bytes)

include hfile

theorem probed_of_file : probed packages files source =
    (packages.metadata bytes).mapError fun message ↦ .thrown (.error message) := by
  rw [probed, readSource, hfile]
  rfl

theorem edited_of_file (edit : ImageEdit) : edited packages files source edit =
    (packages.edit edit bytes).mapError fun message ↦ .thrown (.error message) := by
  rw [edited, readSource, hfile]
  rfl

theorem inspected_of_file {options : Delimited Validate.ValidateOptions} {fault : Fault}
    (h : inspected packages files source options = .error fault) : fault ≠ .unsettled := by
  have htext : inspectText packages options bytes = .error fault := by
    rw [inspected, readSource, hfile] at h
    exact h
  simp only [inspectText] at htext
  split at htext <;> cases htext <;> simp [failing, ChainName.piped]

theorem reshaped_of_file {options : Delimited Transform.TransformOptions} {fault : Fault}
    (h : reshaped packages files source options = .error fault) : fault ≠ .unsettled := by
  have htext : reshapeText packages options bytes = .error fault := by
    rw [reshaped, readSource, hfile] at h
    exact h
  simp only [reshapeText] at htext
  split at htext <;> cases htext <;> simp [failing, ChainName.piped]

end Flow

/-- A chain that meets no trouble. It may fail on the data. -/
def Env.flow (env : Env) : (chain : Chain) → Held → Except Fault chain.Yield × Held
  | .probe source, held => (probed env.packages held.files source, held)
  | .rewriteImage source edit target, held =>
    match edited env.packages held.files source edit with
    | .ok bytes => (.ok (), held.write target bytes)
    | .error fault =>
      (.error fault, held.leave (.chain (.rewriteImage source edit target)) env.leaves)
  | .readBack source, held => (readSource .readBack held.files source, held)
  | .inspect source options, held => (inspected env.packages held.files source options, held)
  | .writeReport report target, held => (.ok (), held.write target (env.packages.reportText report))
  | .rewriteCsv source options target, held =>
    match reshaped env.packages held.files source options with
    | .ok (final, text) => (.ok final, held.write target text)
    | .error fault =>
      (.error fault, held.leave (.chain (.rewriteCsv source options target)) env.leaves)

/-- The answers without trouble. -/
def Env.answer (env : Env) : (request : Call) → Held → Except Fault (Reply request) × Held
  | .redisGet key, held => (.ok (ExpiringStore.get env.db env.now key), held)
  | .updateProgress _, held => (.ok (), held)
  | .stat path, held =>
    match held.files path with
    | some bytes => (.ok bytes.length, held)
    | none => (.error (.thrown missing), held)
  | .mkdir _, held => (.ok (), held)
  | .chain chain, held => env.flow chain held

def Env.world (env : Env) : Program.World Call Reply Fault Held :=
  WeakestPrecondition.steady env.answer

/-! ### Trouble -/

/-- What the environment may add to an attempt. -/
inductive Trouble
  /-- The call with this number fails; a chain of streams fails as its streams do. -/
  | call (number : ℕ) (message : String)
  /-- The streams of a chain take these steps. -/
  | streams (name : ChainName) (actions : List (Action JobError))
  /-- `void job.updateProgress(50)` is rejected. -/
  | report (message : String)

/-- The chain reports its progress, without waiting, at every 50000th row. Rows of fields do not
count. -/
def Env.reports (env : Env) (held : Held) : Chain → Bool
  | .inspect source options =>
    match inspected env.packages held.files source options with
    | .ok report => 50000 ≤ report.rows
    | .error _ => false
  | .rewriteCsv source options _ =>
    match reshaped env.packages held.files source options with
    | .ok (final, _) => options.options.hasHeader && 50000 ≤ final.kept
    | .error _ => false
  | _ => false

/-- The failure of streams, as the awaiting function meets it: an `error` event without a listener
ends the process, and a promise that stays open is waited for. -/
def streamFault (state : StreamChain.State JobError) : Fault :=
  match state.promise, state.unhandled with
  | some (.error error), [] => .thrown error
  | _, _ => .unsettled

/-- The state that streams with a failure have reached. -/
def failedStreams (name : ChainName) (actions : List (Action JobError)) :
    Option (StreamChain.State JobError) :=
  if Layout.failures actions = [] then none else name.layout.system.run actions

/-- The calls that trouble strikes. -/
def Trouble.interrupts (env : Env) : Trouble → Interrupts Call Fault Held
  | .call number message, calls, request, _ =>
    match request with
    | .chain _ => none
    | _ => if calls = number then some (.thrown (.error message)) else none
  | .streams name actions, _, request, _ =>
    match request with
    | .chain chain =>
      if chain.name = name then (failedStreams name actions).map streamFault else none
    | _ => none
  | .report _, _, request, held =>
    match request with
    | .chain chain => if env.reports held chain then some .unsettled else none
    | _ => none

/-- The failures of trouble that nobody handles. -/
def Trouble.unhandled : Trouble → List JobError
  | .call _ _ => []
  | .streams name actions => ((failedStreams name actions).map StreamChain.State.unhandled).getD []
  | .report message => [.error message]

/-- The state after a call that trouble has struck. -/
def Trouble.mark (env : Env) (trouble : Trouble) (request : Call) (held : Held) : Held :=
  { held.leave request env.leaves with met := true, unhandled := trouble.unhandled }

/-- The answers with trouble. -/
def Env.troubled (env : Env) (trouble : Trouble) : Program.World Call Reply Fault Held :=
  interrupted env.world (trouble.interrupts env) (trouble.mark env)

/-! ### A deployment with one picture -/

/-- The upload of three bytes. -/
def picture : FileRecord where
  id := "a"
  storageKey := "uploads/a.png"
  originalName := "a.png"
  mimeType := "image/png"
  size := 3
  uploadedAt := ""

/-- Every header reads as two by two pixels; the record is stored as given, and an edit of the whole
image comes out as given. -/
def gallery (record : Option Json) (edited : Except String Bytes) : Env where
  packages := {
    payloadMessage _ := "Invalid input"
    firstIssue _ _ := "Invalid input"
    metadata _ := .ok { format := some "png", width := some 2, height := some 2 }
    edit _ _ := edited
    records _ _ := ([], none)
    parser := .plain
    stringifier := .plain
    csvText _ := []
    reportText _ := [] }
  root := Storage.LocalStorage.dataStorage
  fresh := ⟨"7c6d5e4f", EcmaText.forall_mem_of_all (by decide), by decide⟩
  db key := if key = "file:a" then some ⟨record, none⟩ else none
  now := 0
  leaves _ := some []

def galleryFiles (path : AbsolutePath) : Option Bytes :=
  if path.segments = ["data", "storage", "uploads", "a.png"] then some [1, 2, 3] else none

def thumbnailJob : Json :=
  .object [("fileId", .string "a"), ("operation", .string "image.thumbnail")]

/-! ### What the handlers throw -/

theorem asInvalidImage_marked (error : JobError) :
    (asInvalidImage error).marked.isUnrecoverable = true := by
  cases error <;> rfl

theorem asInvalidCsv_marked (error : JobError) :
    (Transform.asInvalidCsv error).marked.isUnrecoverable = true := by
  cases error <;> rfl

/-! ### Programs that relay trouble -/

section Relays

theorem relays_call (request : Call) :
    Relays Eq (Program.perform request : JobTask (Reply request)) :=
  relays_perform (fun _ ↦ rfl) request

theorem relays_getRecord (id : String) : Relays Eq (getRecord id) := by
  refine relays_bind (relays_call _) fun raw ↦ ?_
  rcases raw with _ | _ | value
  · exact relays_pure _
  · exact relays_throw _
  · exact relays_pure _

theorem relays_findRecord (args : ProcessorArgs) : Relays Eq (findRecord args) := by
  refine relays_bind (relays_getRecord _) fun record ↦ ?_
  cases record with
  | none => exact relays_throw _
  | some record => exact relays_pure _

theorem relays_openStream (root : AbsolutePath) (key : String) : Relays Eq (openStream root key) :=
  relays_bind (relays_ofExcept _) fun _ ↦ relays_bind (relays_call _) fun _ ↦ relays_pure _

theorem relays_prepareTarget (root : AbsolutePath) (key : String) :
    Relays Eq (prepareTarget root key) :=
  relays_bind (relays_ofExcept _) fun _ ↦ relays_bind (relays_call _) fun _ ↦ relays_pure _

theorem relays_storedAt (key : String) (target : AbsolutePath) : Relays Eq (storedAt key target) :=
  relays_bind (relays_call _) fun _ ↦ relays_pure _

theorem relays_usable {Options : Type} (args : ProcessorArgs) (operation : String)
    (parsed : Option Options) : Relays Eq (usable args operation parsed) := by
  cases parsed with
  | none => exact relays_throw _
  | some options => exact relays_pure _

theorem relays_probeImage (args : ProcessorArgs) (record : FileRecord) :
    Relays Eq (probeImage args record) :=
  relays_bind (relays_openStream _ _) fun _ ↦ relays_call _

theorem relays_runPipeline (args : ProcessorArgs) (edit : ImageEdit) (suffix ext : String) :
    Relays Eq (runPipeline args edit suffix ext) :=
  relays_bind (relays_findRecord args) fun _ ↦ relays_bind (relays_openStream _ _) fun _ ↦
    relays_bind (relays_call _) fun _ ↦ relays_bind (relays_prepareTarget _ _) fun _ ↦
      relays_bind (relays_call _) fun _ ↦ relays_bind (relays_storedAt _ _) fun _ ↦
        relays_bind (relays_call _) fun _ ↦ relays_pure _

theorem relays_readBack (args : ProcessorArgs) (key : String) : Relays Eq (readBack args key) :=
  relays_bind (relays_openStream _ _) fun _ ↦ relays_bind (relays_call _) fun _ ↦
    relays_ofExcept _

theorem relays_inspectSource (args : ProcessorArgs) (record : FileRecord)
    (options : Delimited Validate.ValidateOptions) :
    Relays Eq (inspectSource args record options) :=
  relays_bind (relays_openStream _ _) fun _ ↦ relays_call _

theorem relays_rewriteSource (args : ProcessorArgs) (record : FileRecord)
    (options : Delimited Transform.TransformOptions) :
    Relays Eq (rewriteSource args record options) :=
  relays_bind (relays_openStream _ _) fun _ ↦ relays_bind (relays_prepareTarget _ _) fun _ ↦
    relays_bind (relays_call _) fun _ ↦ relays_bind (relays_storedAt _ _) fun _ ↦ relays_pure _

/-- A handler relays what it makes of the fault. -/
theorem relays_rethrowing {α : Type} (label : JobError → JobError) {body : JobTask α}
    (hbody : Relays Eq body) :
    Relays (fun fault relayed ↦ relayed = fault.relabel label) (rethrowing label body) :=
  relays_handle hbody (by rintro fault _ rfl; rfl)

/-- Both are thrown, or neither is heard of. -/
def SameKind (fault relayed : Fault) : Prop := fault = .unsettled ↔ relayed = .unsettled

theorem relabel_eq_unsettled_iff (label : JobError → JobError) (fault : Fault) :
    fault.relabel label = .unsettled ↔ fault = .unsettled := by
  cases fault <;> simp [Fault.relabel]

theorem sameKind_of_eq {α : Type} {program : JobTask α} (h : Relays Eq program) :
    Relays SameKind program :=
  h.mono (by rintro fault _ rfl; exact Iff.rfl)

theorem sameKind_rethrowing {α : Type} (label : JobError → JobError) {body : JobTask α}
    (hbody : Relays Eq body) : Relays SameKind (rethrowing label body) :=
  (relays_rethrowing label hbody).mono
    (by rintro fault _ rfl; exact (relabel_eq_unsettled_iff label fault).symm)

theorem sameKind_call (request : Call) :
    Relays SameKind (Program.perform request : JobTask (Reply request)) :=
  sameKind_of_eq (relays_call request)

theorem sameKind_openImage (args : ProcessorArgs) : Relays SameKind (openImage args) := by
  refine relays_bind (sameKind_of_eq (relays_findRecord args)) fun record ↦ ?_
  refine relays_bind (sameKind_rethrowing _ (relays_probeImage args record)) fun metadata ↦ ?_
  split_ifs
  · exact relays_pure _
  · exact relays_throw _

/-- Whatever call of a processor fails, the processor makes no other, and it ends with an error if
the failure was thrown. -/
theorem relays_processors (operation : Operation) (args : ProcessorArgs) :
    Relays SameKind (processors operation args) := by
  cases operation with
  | imageResize =>
    exact relays_bind (sameKind_of_eq (relays_usable _ _ _)) fun _ ↦
      relays_bind (sameKind_openImage args) fun _ ↦ relays_bind (sameKind_call _) fun _ ↦
        relays_bind (sameKind_of_eq (relays_runPipeline _ _ _ _)) fun _ ↦
          relays_bind (sameKind_of_eq (relays_readBack _ _)) fun _ ↦
            relays_bind (sameKind_call _) fun _ ↦ relays_pure _
  | imageConvert =>
    exact relays_bind (sameKind_of_eq (relays_usable _ _ _)) fun _ ↦
      relays_bind (sameKind_openImage args) fun _ ↦ relays_bind (sameKind_call _) fun _ ↦
        relays_bind (sameKind_of_eq (relays_runPipeline _ _ _ _)) fun _ ↦
          relays_bind (sameKind_call _) fun _ ↦ relays_pure _
  | imageThumbnail =>
    exact relays_bind (sameKind_of_eq (relays_usable _ _ _)) fun _ ↦
      relays_bind (sameKind_openImage args) fun _ ↦ relays_bind (sameKind_call _) fun _ ↦
        relays_bind (sameKind_of_eq (relays_runPipeline _ _ _ _)) fun _ ↦
          relays_bind (sameKind_call _) fun _ ↦ relays_pure _
  | csvValidate =>
    exact relays_bind (sameKind_of_eq (relays_usable _ _ _)) fun _ ↦
      relays_bind (sameKind_of_eq (relays_findRecord args)) fun record ↦
        relays_bind (sameKind_call _) fun _ ↦
          relays_bind (sameKind_rethrowing _ (relays_inspectSource args record _)) fun _ ↦
            relays_bind (sameKind_call _) fun _ ↦
              relays_bind (sameKind_of_eq (relays_prepareTarget _ _)) fun _ ↦
                relays_bind (sameKind_call _) fun _ ↦
                  relays_bind (sameKind_of_eq (relays_storedAt _ _)) fun _ ↦
                    relays_bind (sameKind_call _) fun _ ↦ relays_pure _
  | csvTransform =>
    exact relays_bind (sameKind_of_eq (relays_usable _ _ _)) fun _ ↦
      relays_bind (sameKind_of_eq (relays_findRecord args)) fun record ↦
        relays_bind (sameKind_call _) fun _ ↦
          relays_bind (sameKind_rethrowing _ (relays_rewriteSource args record _)) fun _ ↦
            relays_bind (sameKind_call _) fun _ ↦ relays_pure _

end Relays

/-! ### Meeting trouble -/

theorem leave_met (held : Held) (request : Call) (left : Chain → Option Bytes) :
    (held.leave request left).met = held.met := by
  unfold Held.leave
  repeat' split
  all_goals rfl

theorem answer_met (env : Env) (request : Call) (held : Held) :
    (env.answer request held).2.met = held.met := by
  cases request with
  | redisGet key => rfl
  | updateProgress value => rfl
  | stat path =>
    simp only [Env.answer]
    split <;> rfl
  | mkdir directory => rfl
  | chain chain =>
    cases chain with
    | rewriteImage source edit target =>
      simp only [Env.answer, Env.flow]
      split
      · rfl
      · exact leave_met held _ _
    | rewriteCsv source options target =>
      simp only [Env.answer, Env.flow]
      split
      · rfl
      · exact leave_met held _ _
    | _ => rfl

/-- Without trouble nothing is met. -/
theorem run_world_met (env : Env) {α : Type} (program : JobTask α) (calls : ℕ) (held : Held) :
    (Program.run env.world program calls held).state.met = held.met := by
  have hstep (_ : ℕ) (request : Call) (before : Held) (_ : True) (hbefore : before.met = held.met) :
      (env.answer request before).2.met = held.met := (answer_met env request before).trans hbefore
  exact Program.run_induction hstep (Program.allCalls_true program) calls held rfl

/-- An attempt goes on as without trouble, or one of its calls was struck and the program has ended
with the failure, as it relays it. -/
theorem troubled_cases (env : Env) (trouble : Trouble) {α : Type} {relay : Fault → Fault → Prop}
    {property : Call → Prop} {program : JobTask α} (hprogram : Relays relay program)
    (hcalls : program.AllCalls property) (calls : ℕ) (held : Held) :
    Program.run (env.troubled trouble) program calls held =
        Program.run env.world program calls held ∨
      ∃ number request before fault relayed last struck found, property request ∧
        trouble.interrupts env number request before = some fault ∧ calls ≤ number ∧
        number < (Program.run env.world program calls held).calls ∧ relay fault relayed ∧
        Program.run (env.troubled trouble) program calls held =
          ⟨.error relayed, last, trouble.mark env struck found⟩ :=
  run_interrupted_cases hprogram hcalls calls held

/-- An attempt that met trouble has made a call that was struck, and has ended with its failure. -/
theorem exists_struck {env : Env} {trouble : Trouble} {α : Type} {relay : Fault → Fault → Prop}
    {program : JobTask α} (hprogram : Relays relay program) {calls : ℕ} {held : Held}
    (hheld : held.met = false)
    (hmet : (Program.run (env.troubled trouble) program calls held).state.met = true) :
    ∃ number request before fault relayed,
      trouble.interrupts env number request before = some fault ∧ relay fault relayed ∧
        (Program.run (env.troubled trouble) program calls held).outcome = .error relayed ∧
        (Program.run (env.troubled trouble) program calls held).state.unhandled =
          trouble.unhandled := by
  rcases troubled_cases env trouble hprogram (Program.allCalls_true program) calls held with
    hsame | ⟨number, request, before, fault, relayed, last, struck, found, -, hstruck, -, -, hrelay,
      hrun⟩
  · rw [hsame, run_world_met, hheld] at hmet
    exact absurd hmet (by decide)
  · rw [hrun]
    exact ⟨number, request, before, fault, relayed, hstruck, hrelay, rfl, rfl⟩

end FileForge.Jobs.Attempts
