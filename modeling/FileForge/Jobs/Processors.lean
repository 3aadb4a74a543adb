import FileForge.Csv.OutputKeys
import FileForge.Files.Repository
import FileForge.Foundation.StreamChain
import FileForge.Jobs.JobOptions
import FileForge.Jobs.Worker
import FileForge.Storage.LocalStorage

/-!
# The processors

The five operations of `src/jobs/image.ts` and `src/jobs/csv.ts` and the way into them, `runJob` and
`runJobWithRetryPolicy` of `src/jobs/processors.ts`, as programs over the calls that leave the
process: Redis, the file system, and chains of streams that are awaited. A chain is one call; what
joins its stages is its layout (`ChainName.layout`), in which the stages in front of the awaited
part are joined by `pipe` alone. The chain takes its steps from where its source is opened, which
for two of them is before another call is awaited (`ChainName.opened`).

A failure is thrown, or it is one that the awaiting function never hears of (`Fault.unsettled`): it
goes unhandled, or the promise stays open. No handler sees the latter.

The answers to the calls, and what may go wrong with them, are in `Attempts`.
-/

set_option autoImplicit false
set_option relaxedAutoImplicit false

namespace FileForge.Jobs.Processors

open Foundation Foundation.JsonValue Foundation.Interaction Foundation.PosixPath
open Foundation.FileTree (Bytes)
open Foundation.StreamChain (Layout)
open Storage.LocalStorage (StoredFile pathFor)
open Shared.Contract Files.Repository Files.Upload Csv Csv.Streams Errors
open JobOptions
open Worker (ProcessorResult)

/-! ### Chains of streams -/

/-- `Metadata`, as far as it is read. -/
structure Metadata where
  format : Option String
  width : Option ℕ
  height : Option ℕ
  deriving DecidableEq

/-- What a `Sharp` is set up to do. -/
inductive ImageEdit
  | resize (options : ResizeOptions)
  /-- `toFormat(format, { quality })` -/
  | toFormat (options : ConvertOptions)
  /-- `resize({ width: size, height: size, fit: 'cover', position: 'centre' })` and
  `webp({ quality: 75 })` -/
  | thumbnail (options : ThumbnailOptions)

inductive Stage
  | source
  | probe
  | transform
  | parser
  | inspect
  | reshape
  | stringifier
  | report
  | target
  deriving DecidableEq, Repr

/-- The chains that are awaited. -/
inductive ChainName
  | probe
  | rewriteImage
  | readBack
  | inspect
  | writeReport
  | rewriteCsv
  deriving DecidableEq, Repr

def ChainName.stages : ChainName → List Stage
  | .probe => [.source, .probe]
  | .rewriteImage => [.source, .transform, .target]
  | .readBack => [.source]
  | .inspect => [.source, .parser, .inspect]
  | .writeReport => [.report, .target]
  | .rewriteCsv => [.source, .parser, .reshape, .stringifier, .target]

/-- The stages in front of what is awaited. `source.pipe(probe)` is followed by
`probe.metadata()`, and `save` is handed the tail of `source.pipe(transform)`; the others are one
`pipeline`, or a loop over the only stage. -/
def ChainName.piped : ChainName → ℕ
  | .probe | .rewriteImage => 1
  | _ => 0

/-- The sources that are opened before another call is awaited, and only then joined to a stage or
listened to: `runPipeline` reports its progress between the two, and in `transformCsv` it is
`saveFrom` that makes a directory before it calls `pipeline`. The others are joined as soon as they
are opened. -/
def ChainName.opened : ChainName → ℕ
  | .rewriteImage | .rewriteCsv => 1
  | _ => 0

def ChainName.layout (name : ChainName) : Layout where
  length := name.stages.length
  piped := name.piped
  opened := name.opened
  piped_lt := by cases name <;> decide

/-- A chain with what its stages are set up with. -/
inductive Chain
  | probe (source : AbsolutePath)
  | rewriteImage (source : AbsolutePath) (edit : ImageEdit) (target : AbsolutePath)
  | readBack (source : AbsolutePath)
  | inspect (source : AbsolutePath) (options : Delimited Validate.ValidateOptions)
  | writeReport (report : Validate.ValidationReport) (target : AbsolutePath)
  | rewriteCsv (source : AbsolutePath) (options : Delimited Transform.TransformOptions)
      (target : AbsolutePath)

def Chain.name : Chain → ChainName
  | .probe _ => .probe
  | .rewriteImage _ _ _ => .rewriteImage
  | .readBack _ => .readBack
  | .inspect _ _ => .inspect
  | .writeReport _ _ => .writeReport
  | .rewriteCsv _ _ _ => .rewriteCsv

/-- What is known at the end of a chain. -/
abbrev Chain.Yield : Chain → Type
  | .probe _ => Metadata
  | .rewriteImage _ _ _ => Unit
  | .readBack _ => Bytes
  | .inspect _ _ => Validate.ValidationReport
  | .writeReport _ _ => Unit
  | .rewriteCsv _ _ _ => Transform.ReshapeState

/-! ### Calls and failures -/

inductive Call
  | redisGet (key : String)
  | updateProgress (value : ℕ)
  | stat (path : AbsolutePath)
  /-- `mkdir(directory, { recursive: true })` -/
  | mkdir (directory : AbsolutePath)
  | chain (chain : Chain)

/-- What a call answers; a stored text comes as what `JSON.parse` makes of it. -/
abbrev Reply : Call → Type
  | .redisGet _ => Option (Option Json)
  | .stat _ => ℕ
  | .chain chain => chain.Yield
  | _ => Unit

inductive Fault
  | thrown (error : JobError)
  /-- A failure that the awaiting function never hears of. -/
  | unsettled
  deriving DecidableEq

/-- What a handler makes of a failure that it sees. -/
def Fault.relabel (label : JobError → JobError) : Fault → Fault
  | .thrown error => .thrown (label error)
  | .unsettled => .unsettled

abbrev JobTask := Program Call Reply Fault

def fail {α : Type} (error : JobError) : JobTask α := throw (.thrown error)

/-- `try { body } catch (error) { throw label(error) }` -/
def rethrowing {α : Type} (label : JobError → JobError) (body : JobTask α) : JobTask α :=
  tryCatch body fun fault ↦ throw (fault.relabel label)

def updateProgress (value : ℕ) : JobTask Unit := Program.perform (Call.updateProgress value)

def awaitChain (chain : Chain) : JobTask chain.Yield := Program.perform (Call.chain chain)

/-! ### Packages and arguments -/

/-- The packages that the processors use. -/
structure Packages where
  /-- `parsed.error.message` of a refused payload. -/
  payloadMessage : Json → String
  /-- `parsed.error.issues[0]?.message` of refused options. -/
  firstIssue : Operation → Fields → String
  /-- `sharp(...).metadata()`: what the header says, or why it cannot be read. -/
  metadata : Bytes → Except String Metadata
  /-- The whole image through an edit. -/
  edit : ImageEdit → Bytes → Except String Bytes
  /-- The records that a delimiter makes of a text, up to where it cannot be split, and why. -/
  records : String → Bytes → List Record × Option String
  parser : Parser
  stringifier : Stringifier
  /-- The text of written lines. -/
  csvText : List (List String) → Bytes
  /-- `JSON.stringify(report, null, 2)` -/
  reportText : Validate.ValidationReport → Bytes

/-- What the processors of one attempt run with: the packages, the root of the storage and the start
of a fresh identifier. -/
structure Runtime where
  packages : Packages
  root : AbsolutePath
  fresh : OutputKeys.IdStart

/-- `ProcessorArgs`. -/
structure ProcessorArgs extends Runtime where
  payload : JobPayload

/-! ### Records and storage -/

/-- `FileRepository.get`. A text that is not JSON throws. -/
def getRecord (id : String) : JobTask (Option FileRecord) := do
  let raw ← Program.perform (Call.redisGet (keyFor id))
  match raw with
  | none => return none
  | some none => fail (.error "SyntaxError")
  | some (some value) => return FileRecordSchema.safeParse value

/-- The record of the job's file. -/
def findRecord (args : ProcessorArgs) : JobTask FileRecord := do
  let record ← getRecord args.payload.fileId
  match record with
  | none => fail (.missingFile args.payload.fileId)
  | some record => return record

/-- The guard of storage, whose refusal is an `Error`, and the check of a path that comes before any
call on it. -/
def resolved (root : AbsolutePath) (key : String) : Except JobError AbsolutePath :=
  match pathFor root key with
  | .ok path =>
    if '\x00' ∈ path.text.toList then
      .error (.error "ERR_INVALID_ARG_VALUE: must be a string without null bytes")
    else .ok path
  | .error (.thrown message) => .error (.error message)
  | .error (.system _) => .error (.error "")

def resolveKey (root : AbsolutePath) (key : String) : JobTask AbsolutePath :=
  Program.ofExcept ((resolved root key).mapError .thrown)

/-- `open`: the path that the stream will read. -/
def openStream (root : AbsolutePath) (key : String) : JobTask AbsolutePath := do
  let path ← resolveKey root key
  let _ ← Program.perform (Call.stat path)
  return path

/-- The part of `save` and `saveFrom` before their pipeline. -/
def prepareTarget (root : AbsolutePath) (key : String) : JobTask AbsolutePath := do
  let target ← resolveKey root key
  Program.perform (Call.mkdir target.dirname)
  return target

/-- The part of `save` and `saveFrom` after their pipeline. -/
def storedAt (key : String) (target : AbsolutePath) : JobTask StoredFile := do
  let size ← Program.perform (Call.stat target)
  return { key := key, size := size }

/-! ### Image operations -/

/-- `text.replace(pattern, '')`: without the first occurrence of a text. -/
def removeFirst (pattern : List Char) : List Char → List Char
  | [] => []
  | c :: rest =>
    if pattern <+: c :: rest then (c :: rest).drop pattern.length else c :: removeFirst pattern rest

/-- `outputKey` of `src/jobs/image.ts`. -/
def imageKey (originalKey suffix ext : String) (id : OutputKeys.IdStart) : String :=
  let uploads := "uploads/".toList
  let name := if uploads <+: originalKey.toList then originalKey.toList.drop uploads.length
    else originalKey.toList
  let base := String.ofList (removeFirst (extname originalKey).toList name)
  "outputs/" ++ base ++ "-" ++ suffix ++ "-" ++ id.text ++ ext

/-- `FORMAT_EXTENSIONS` -/
def formatExtensions : List (String × String) :=
  [("jpeg", ".jpg"), ("png", ".png"), ("webp", ".webp"), ("avif", ".avif"), ("gif", ".gif"),
    ("tiff", ".tiff")]

/-- What holds of all extensions holds of the one that is looked up. -/
theorem extension_of_forall {property : String → Prop}
    (hall : ∀ entry ∈ formatExtensions, property entry.2) (format : String) {fallback : String}
    (hfallback : property fallback) :
    property ((formatExtensions.lookup format).getD fallback) := by
  cases hlookup : formatExtensions.lookup format with
  | none => exact hfallback
  | some ext =>
    obtain ⟨first, rest, hentries, -⟩ := List.lookup_eq_some_iff.mp hlookup
    exact hall (format, ext) (by rw [hentries]; simp)

/-- What the probe throws instead of what it caught. -/
def asInvalidImage : JobError → JobError
  | .thrown _ => .invalidImage "unreadable"
  | error => .invalidImage error.message

/-- `!metadata.width || !metadata.height` is false. -/
def Metadata.HasSize (metadata : Metadata) : Prop :=
  metadata.width.getD 0 ≠ 0 ∧ metadata.height.getD 0 ≠ 0

instance (metadata : Metadata) : Decidable metadata.HasSize :=
  inferInstanceAs (Decidable (_ ∧ _))

/-- The part of `openImage` inside its `try`. -/
def probeImage (args : ProcessorArgs) (record : FileRecord) : JobTask Metadata := do
  let source ← openStream args.root record.storageKey
  awaitChain (.probe source)

/-- `openImage`: loads the source file and confirms it decodes as an image. -/
def openImage (args : ProcessorArgs) : JobTask Metadata := do
  let record ← findRecord args
  let metadata ← rethrowing asInvalidImage (probeImage args record)
  if metadata.HasSize then return metadata
  else fail (.invalidImage "no dimensions could be read")

/-- `runPipeline`: an image from storage to storage. -/
def runPipeline (args : ProcessorArgs) (edit : ImageEdit) (suffix ext : String) :
    JobTask StoredFile := do
  let record ← findRecord args
  let key := imageKey record.storageKey suffix ext args.fresh
  let source ← openStream args.root record.storageKey
  updateProgress 40
  let target ← prepareTarget args.root key
  awaitChain (.rewriteImage source edit target)
  let stored ← storedAt key target
  updateProgress 90
  return stored

/-- The options of a payload, or the error that its schema makes of them. -/
def usable {Options : Type} (args : ProcessorArgs) (operation : String)
    (parsed : Option Options) : JobTask Options :=
  match parsed with
  | some options => pure options
  | none => fail (.invalidOptions ("Invalid " ++ operation ++ " options: " ++
      args.packages.firstIssue args.payload.operation args.payload.options))

def number (value : ℕ) : Json := .number value

/-- `resultMeta` of `resizeImage`: the stored result is read back. -/
def readBack (args : ProcessorArgs) (key : String) : JobTask Metadata := do
  let source ← openStream args.root key
  let bytes ← awaitChain (.readBack source)
  Program.ofExcept ((args.packages.metadata bytes).mapError fun message ↦ .thrown (.error message))

def resizeImage (args : ProcessorArgs) : JobTask ProcessorResult := do
  let options ← usable args "resize" (ResizeOptionsSchema.safeParse args.payload.options)
  let metadata ← openImage args
  updateProgress 20
  let ext := (formatExtensions.lookup (metadata.format.getD "png")).getD ".png"
  let output ← runPipeline args (.resize options) "resized" ext
  let resultMeta ← readBack args output.key
  updateProgress 100
  return {
    outputs := [output.key]
    details := some (.object (field "sourceWidth" (metadata.width.map number) ++
      field "sourceHeight" (metadata.height.map number) ++
      field "width" (resultMeta.width.map number) ++
      field "height" (resultMeta.height.map number) ++
      field "format" (resultMeta.format.map .string) ++
      [("bytes", number output.size)])) }

def convertImage (args : ProcessorArgs) : JobTask ProcessorResult := do
  let options ← usable args "convert" (ConvertOptionsSchema.safeParse args.payload.options)
  let metadata ← openImage args
  updateProgress 20
  let ext := (formatExtensions.lookup options.format.text).getD ".bin"
  let output ← runPipeline args (.toFormat options) options.format.text ext
  updateProgress 100
  return {
    outputs := [output.key]
    details := some (.object (field "sourceFormat" (metadata.format.map .string) ++
      [("format", .string options.format.text), ("quality", number options.quality.value),
        ("bytes", number output.size)])) }

def thumbnailImage (args : ProcessorArgs) : JobTask ProcessorResult := do
  let options ← usable args "thumbnail" (ThumbnailOptionsSchema.safeParse args.payload.options)
  let metadata ← openImage args
  updateProgress 20
  let output ← runPipeline args (.thumbnail options) ("thumb" ++ toString options.size.value)
    ".webp"
  updateProgress 100
  return {
    outputs := [output.key]
    details := some (.object (field "sourceWidth" (metadata.width.map number) ++
      field "sourceHeight" (metadata.height.map number) ++
      [("size", number options.size.value), ("format", .string "webp"),
        ("bytes", number output.size)])) }

/-! ### CSV operations -/

/-- The part of `validateCsv` inside its `try`. -/
def inspectSource (args : ProcessorArgs) (record : FileRecord)
    (options : Delimited Validate.ValidateOptions) : JobTask Validate.ValidationReport := do
  let source ← openStream args.root record.storageKey
  awaitChain (.inspect source options)

def validateCsv (args : ProcessorArgs) : JobTask ProcessorResult := do
  let options ← usable args "validate" (ValidateOptionsSchema.safeParse args.payload.options)
  let record ← findRecord args
  updateProgress 10
  let report ← rethrowing Transform.asInvalidCsv (inspectSource args record options)
  updateProgress 80
  let key := OutputKeys.outputKey record.originalName "report" ".json" args.fresh
  let target ← prepareTarget args.root key
  awaitChain (.writeReport report target)
  let stored ← storedAt key target
  updateProgress 100
  return {
    outputs := [stored.key]
    details := some (.object [("rows", number report.rows),
      ("columns", number report.columnCount),
      ("inconsistentRows", number report.inconsistentRows),
      ("emptyRows", number report.emptyRows)]) }

/-- The part of `transformCsv` inside its `try`: `saveFrom` of the whole chain. -/
def rewriteSource (args : ProcessorArgs) (record : FileRecord)
    (options : Delimited Transform.TransformOptions) :
    JobTask (Transform.ReshapeState × StoredFile) := do
  let source ← openStream args.root record.storageKey
  let key := OutputKeys.outputKey record.originalName "clean" ".csv" args.fresh
  let target ← prepareTarget args.root key
  let final ← awaitChain (.rewriteCsv source options target)
  let stored ← storedAt key target
  return (final, stored)

def transformCsv (args : ProcessorArgs) : JobTask ProcessorResult := do
  let options ← usable args "transform" (TransformOptionsSchema.safeParse args.payload.options)
  let record ← findRecord args
  updateProgress 10
  let (final, stored) ← rethrowing Transform.asInvalidCsv (rewriteSource args record options)
  updateProgress 100
  return {
    outputs := [stored.key]
    details := some (.object [("rowsIn", number final.seen), ("rowsOut", number final.kept),
      ("rowsDropped", number final.dropped),
      ("columns", .array (final.selectedColumns.map .string)),
      ("bytes", number stored.size)]) }

/-! ### The way in -/

/-- `processors` -/
def processors : Operation → ProcessorArgs → JobTask ProcessorResult
  | .imageResize => resizeImage
  | .imageConvert => convertImage
  | .imageThumbnail => thumbnailImage
  | .csvValidate => validateCsv
  | .csvTransform => transformCsv

/-- `runJob`: runs the handler for a job's operation. Every operation has one. -/
def runJob (runtime : Runtime) (data : Json) : JobTask ProcessorResult :=
  match JobPayloadSchema.safeParse data with
  | none => fail (.error ("Malformed job payload: " ++ runtime.packages.payloadMessage data))
  | some payload => processors payload.operation { runtime with payload := payload }

/-- Runs a job and converts failures that a retry cannot fix. -/
def runJobWithRetryPolicy (runtime : Runtime) (data : Json) : JobTask ProcessorResult :=
  rethrowing JobError.marked (runJob runtime data)

end FileForge.Jobs.Processors
