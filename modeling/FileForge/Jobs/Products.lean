import FileForge.Jobs.KeyLayout

/-!
# What a job produces

The five operations as functions of the stored record and its bytes (`productOf`): the key under
which the result is stored, its bytes and the details that are reported, or none where the operation
fails. The processors are programs that open files, await streams and report their progress in
between; `attempt_completes_iff` says that an attempt without trouble ends with a result exactly
when there is a product, reports it, stores it under its key and changes no other file. What the
product of a CSV operation is in terms of the records of the file is said by
`reportProduct_of_records` and `rewriteProduct_of_records`.

The attempt is followed backwards, as in `HopelessJobs`, with no failure allowed (`Completes`).
-/

set_option autoImplicit false
set_option relaxedAutoImplicit false

namespace FileForge.Jobs.Products

open Foundation Foundation.JsonValue Foundation.Interaction Foundation.PosixPath
open Foundation.WeakestPrecondition
open Foundation.FileTree (Bytes)
open Shared.Contract Files.Repository Csv Errors JobOptions Processors Attempts HopelessJobs
open KeyLayout (IsImageWork)
open Worker (ProcessorResult)
open Storage.LocalStorage (StoredFile)

/-! ### Products -/

structure Product where
  key : String
  bytes : Bytes
  details : Fields

/-- What the processor returns. -/
def Product.result (product : Product) : ProcessorResult :=
  { outputs := [product.key], details := some (.object product.details) }

section Products

variable (env : Env) (files : AbsolutePath → Option Bytes)

/-- The record of a file and the bytes that are stored for it. -/
def sourceOf (fileId : String) : Option (FileRecord × Bytes) := do
  let record ← (← (recordOf env fileId).toOption)
  let path ← (resolved env.root record.storageKey).toOption
  let bytes ← files path
  return (record, bytes)

/-- The product of an image operation. The details are read off the header and the result. -/
def imageProduct (fileId : String) (work : ImageWork)
    (details : Metadata → Bytes → Option Fields) : Option Product := do
  let (record, bytes) ← sourceOf env files fileId
  let metadata ← (env.packages.metadata bytes).toOption
  guard metadata.HasSize
  let output ← (env.packages.edit work.edit bytes).toOption
  let details ← details metadata output
  return {
    key := imageKey record.storageKey work.suffix (work.ext metadata) env.fresh
    bytes := output, details := details }

def sourceSize (metadata : Metadata) : Fields :=
  field "sourceWidth" (metadata.width.map number) ++
    field "sourceHeight" (metadata.height.map number)

/-- The size and the format are those of the result. -/
def resizeDetails (metadata : Metadata) (output : Bytes) : Option Fields := do
  let resultMeta ← (env.packages.metadata output).toOption
  return sourceSize metadata ++ field "width" (resultMeta.width.map number) ++
    field "height" (resultMeta.height.map number) ++
    field "format" (resultMeta.format.map .string) ++ [("bytes", number output.length)]

def convertDetails (options : ConvertOptions) (metadata : Metadata) (output : Bytes) :
    Option Fields :=
  some (field "sourceFormat" (metadata.format.map .string) ++
    [("format", .string options.format.text), ("quality", number options.quality.value),
      ("bytes", number output.length)])

def thumbnailDetails (options : ThumbnailOptions) (metadata : Metadata) (output : Bytes) :
    Option Fields :=
  some (sourceSize metadata ++ [("size", number options.size.value), ("format", .string "webp"),
    ("bytes", number output.length)])

def reportDetails (report : Validate.ValidationReport) : Fields :=
  [("rows", number report.rows), ("columns", number report.columnCount),
    ("inconsistentRows", number report.inconsistentRows), ("emptyRows", number report.emptyRows)]

def rewriteDetails (final : Transform.ReshapeState) (text : Bytes) : Fields :=
  [("rowsIn", number final.seen), ("rowsOut", number final.kept),
    ("rowsDropped", number final.dropped), ("columns", .array (final.selectedColumns.map .string)),
    ("bytes", number text.length)]

/-- The product of `csv.validate`. -/
def reportProduct (fileId : String) (options : Delimited Validate.ValidateOptions) :
    Option Product := do
  let (record, bytes) ← sourceOf env files fileId
  let report ← (inspectText env.packages options bytes).toOption
  return {
    key := OutputKeys.outputKey record.originalName "report" ".json" env.fresh
    bytes := env.packages.reportText report, details := reportDetails report }

/-- The product of `csv.transform`. -/
def rewriteProduct (fileId : String) (options : Delimited Transform.TransformOptions) :
    Option Product := do
  let (record, bytes) ← sourceOf env files fileId
  let (final, text) ← (reshapeText env.packages options bytes).toOption
  return {
    key := OutputKeys.outputKey record.originalName "clean" ".csv" env.fresh
    bytes := text, details := rewriteDetails final text }

/-- The product of a job. -/
def productOf (payload : JobPayload) : Option Product :=
  match payload.operation with
  | .imageResize => do
    let options ← ResizeOptionsSchema.safeParse payload.options
    imageProduct env files payload.fileId (resizeWork options) (resizeDetails env)
  | .imageConvert => do
    let options ← ConvertOptionsSchema.safeParse payload.options
    imageProduct env files payload.fileId (convertWork options) (convertDetails options)
  | .imageThumbnail => do
    let options ← ThumbnailOptionsSchema.safeParse payload.options
    imageProduct env files payload.fileId (thumbnailWork options) (thumbnailDetails options)
  | .csvValidate => do
    let options ← ValidateOptionsSchema.safeParse payload.options
    reportProduct env files payload.fileId options
  | .csvTransform => do
    let options ← TransformOptionsSchema.safeParse payload.options
    rewriteProduct env files payload.fileId options

end Products

theorem toOption_eq_some_iff {ε α : Type} {outcome : Except ε α} {value : α} :
    outcome.toOption = some value ↔ outcome = .ok value := by
  cases outcome <;> simp [Except.toOption]

theorem sourceOf_eq_some_iff {env : Env} {files : AbsolutePath → Option Bytes} {fileId : String}
    {source : FileRecord × Bytes} :
    sourceOf env files fileId = some source ↔
      recordOf env fileId = .ok (some source.1) ∧ ∃ path,
        resolved env.root source.1.storageKey = .ok path ∧ files path = some source.2 := by
  simp only [sourceOf, bind, pure, Option.bind_eq_some_iff, toOption_eq_some_iff, Option.some.injEq]
  constructor
  · rintro ⟨_, hrecord, record, rfl, path, hpath, bytes, hbytes, rfl⟩
    exact ⟨hrecord, path, hpath, hbytes⟩
  · rintro ⟨hrecord, path, hpath, hbytes⟩
    exact ⟨_, hrecord, _, rfl, path, hpath, _, hbytes, rfl⟩

/-! ### Completing -/

/-- The condition on the state before a part of an attempt: it ends with a result that meets the
postcondition. -/
def Completes (env : Env) {α : Type} (program : JobTask α) (post : α → Held → Prop)
    (held : Held) : Prop :=
  wp env.answer (fun _ _ ↦ False) program post held

section Rules

variable {env : Env} {α β : Type} {held : Held}

theorem completes_bind {program : JobTask α} {rest : α → JobTask β} {post : β → Held → Prop} :
    Completes env (program >>= rest) post held ↔
      Completes env program (fun result ↦ Completes env (rest result) post) held := wp_bind

theorem completes_pure (result : α) {post : α → Held → Prop} :
    Completes env (pure result) post held ↔ post result held := wp_pure result

theorem not_completes_fail (error : JobError) {post : α → Held → Prop} :
    ¬ Completes env (Processors.fail error) post held := fun h ↦ (wp_throw _).mp h

theorem completes_updateProgress {value : ℕ} {post : Unit → Held → Prop} :
    Completes env (updateProgress value) post held ↔ post () held := wp_perform

/-- A handler that throws what it has caught completes nothing. -/
theorem completes_rethrowing {label : JobError → JobError} {body : JobTask α}
    {post : α → Held → Prop} :
    Completes env (rethrowing label body) post held ↔ Completes env body post held := by
  rw [Completes, rethrowing, wp_handle]
  exact wp_congr (fun _ _ ↦ Iff.rfl) fun fault _ ↦ wp_throw _

theorem completes_iff_run {program : JobTask α} {post : α → Held → Prop} :
    Completes env program post held ↔
      ∃ result, (Program.run env.world program 0 held).outcome = .ok result ∧
        post result (Program.run env.world program 0 held).state := by
  rw [Completes, wp_iff_settles 0, Env.world]
  cases (Program.run (steady env.answer) program 0 held).outcome with
  | ok result => simp [Program.Settles]
  | error fault => simp [Program.Settles]

end Rules

/-! ### The parts -/

section Parts

variable {env : Env} {held : Held} {args : ProcessorArgs}

theorem completes_findRecord {post : FileRecord → Held → Prop} :
    Completes env (findRecord args) post held ↔
      ∃ record, recordOf env args.payload.fileId = .ok (some record) ∧ post record held := by
  have hanswer : env.answer (.redisGet (keyFor args.payload.fileId)) held =
      (.ok (ExpiringStore.get env.db env.now (keyFor args.payload.fileId)), held) := rfl
  rw [findRecord, completes_bind, getRecord, completes_bind, Completes, wp_perform, hanswer]
  unfold recordOf Files.Repository.get
  rcases ExpiringStore.get env.db env.now (keyFor args.payload.fileId) with _ | _ | value
  · simp [Program.Settles, completes_pure, not_completes_fail]
  · simp [Program.Settles, not_completes_fail]
  · cases hparsed : FileRecordSchema.safeParse value with
    | none => simp [Program.Settles, completes_pure, not_completes_fail, hparsed]
    | some record => simp [Program.Settles, completes_pure, hparsed]

theorem completes_openStream {key : String} {post : AbsolutePath → Held → Prop} :
    Completes env (openStream env.root key) post held ↔
      ∃ path, resolved env.root key = .ok path ∧ ∃ bytes, held.files path = some bytes ∧
        post path held := by
  rw [Completes, wp_openStream]
  cases hresolved : resolved env.root key with
  | error error => simp
  | ok path => cases hfile : held.files path <;> simp [hfile]

theorem completes_prepareTarget {key : String} {post : AbsolutePath → Held → Prop} :
    Completes env (prepareTarget env.root key) post held ↔
      ∃ target, resolved env.root key = .ok target ∧ post target held := by
  rw [Completes, wp_prepareTarget]
  cases resolved env.root key <;> simp

theorem completes_storedAt {key : String} {target : AbsolutePath} {bytes : Bytes}
    (hfile : held.files target = some bytes) {post : StoredFile → Held → Prop} :
    Completes env (storedAt key target) post held ↔
      post { key := key, size := bytes.length } held := wp_storedAt_of_file hfile

/-- A chain completes with what it is computed to yield. -/
theorem completes_awaitChain {chain : Chain} {post : chain.Yield → Held → Prop} :
    Completes env (awaitChain chain) post held ↔
      ∃ result, (env.flow chain held).1 = .ok result ∧ post result (env.flow chain held).2 := by
  have hanswer : env.answer (.chain chain) held = env.flow chain held := rfl
  rw [Completes, awaitChain, wp_perform, hanswer]
  cases (env.flow chain held).1 with
  | ok result => simp [Program.Settles]
  | error fault => simp [Program.Settles]

end Parts

/-! ### Image operations -/

/-- The result is stored under its key, and no other file has changed. -/
def Stored (env : Env) (product : Product) (post : ProcessorResult → Held → Prop)
    (held : Held) : Prop :=
  ∃ target, resolved env.root product.key = .ok target ∧
    post product.result (held.write target product.bytes)

section Image

variable {env : Env} {held : Held} {payload : JobPayload} {record : FileRecord} {bytes : Bytes}

theorem imageProduct_eq_some_iff {files : AbsolutePath → Option Bytes} {fileId : String}
    {work : ImageWork} {details : Metadata → Bytes → Option Fields} {product : Product} :
    imageProduct env files fileId work details = some product ↔
      ∃ source, sourceOf env files fileId = some source ∧
        ∃ metadata, env.packages.metadata source.2 = .ok metadata ∧ metadata.HasSize ∧
          ∃ output, env.packages.edit work.edit source.2 = .ok output ∧
            ∃ found, details metadata output = some found ∧
              product = ⟨imageKey source.1.storageKey work.suffix (work.ext metadata) env.fresh,
                output, found⟩ := by
  simp only [imageProduct, bind, pure, Option.bind_eq_some_iff, toOption_eq_some_iff,
    Option.some.injEq, Option.guard_eq_some', eq_comm (b := product)]
  simp

theorem completes_probeImage {post : Metadata → Held → Prop} :
    Completes env (probeImage ⟨env.toRuntime, payload⟩ record) post held ↔
      ∃ path, resolved env.root record.storageKey = .ok path ∧
        ∃ bytes, held.files path = some bytes ∧
          ∃ metadata, env.packages.metadata bytes = .ok metadata ∧ post metadata held := by
  rw [probeImage, completes_bind, completes_openStream]
  refine exists_congr fun path ↦ and_congr_right fun _ ↦ exists_congr fun bytes ↦
    and_congr_right fun hfile ↦ ?_
  rw [completes_awaitChain, Env.flow, probed_of_file hfile]
  cases env.packages.metadata bytes <;> simp [Except.mapError]

theorem completes_openImage {post : Metadata → Held → Prop} :
    Completes env (openImage ⟨env.toRuntime, payload⟩) post held ↔
      ∃ source, sourceOf env held.files payload.fileId = some source ∧
        ∃ metadata, env.packages.metadata source.2 = .ok metadata ∧ metadata.HasSize ∧
          post metadata held := by
  have hsize (metadata : Metadata) :
      Completes env (if metadata.HasSize then pure metadata
          else Processors.fail (.invalidImage "no dimensions could be read")) post held ↔
        metadata.HasSize ∧ post metadata held := by
    split_ifs with h
    · rw [completes_pure, and_iff_right h]
    · exact iff_of_false (not_completes_fail _) fun hboth ↦ h hboth.1
  rw [openImage, completes_bind, completes_findRecord]
  simp only [completes_bind, completes_rethrowing, completes_probeImage, hsize,
    sourceOf_eq_some_iff]
  constructor
  · rintro ⟨record, hrecord, path, hpath, bytes, hfile, metadata, hmetadata, hpost⟩
    exact ⟨(record, bytes), ⟨hrecord, path, hpath, hfile⟩, metadata, hmetadata, hpost⟩
  · rintro ⟨⟨record, bytes⟩, ⟨hrecord, path, hpath, hfile⟩, metadata, hmetadata, hpost⟩
    exact ⟨record, hrecord, path, hpath, bytes, hfile, metadata, hmetadata, hpost⟩

/-- Assumes: the record and its bytes. -/
theorem completes_runPipeline {edit : ImageEdit} {suffix ext : String}
    (hsource : sourceOf env held.files payload.fileId = some (record, bytes))
    {post : StoredFile → Held → Prop} :
    Completes env (runPipeline ⟨env.toRuntime, payload⟩ edit suffix ext) post held ↔
      ∃ target, resolved env.root (imageKey record.storageKey suffix ext env.fresh) = .ok target ∧
        ∃ output, env.packages.edit edit bytes = .ok output ∧
          post ⟨imageKey record.storageKey suffix ext env.fresh, output.length⟩
            (held.write target output) := by
  obtain ⟨hrecord, path, hpath, hfile⟩ := sourceOf_eq_some_iff.mp hsource
  have hwrite (target : AbsolutePath) : Completes env (do
      awaitChain (.rewriteImage path edit target)
      let stored ← storedAt (imageKey record.storageKey suffix ext env.fresh) target
      updateProgress 90
      return stored) post held ↔ ∃ output, env.packages.edit edit bytes = .ok output ∧
        post ⟨imageKey record.storageKey suffix ext env.fresh, output.length⟩
          (held.write target output) := by
    rw [completes_bind, completes_awaitChain, Env.flow, edited_of_file hfile]
    cases env.packages.edit edit bytes with
    | error message => simp [Except.mapError]
    | ok output =>
      simp only [Except.mapError, Except.ok.injEq, exists_eq_left', completes_bind,
        completes_storedAt (files_write held target output), completes_updateProgress,
        completes_pure]
      constructor
      · rintro ⟨_, _, hpost⟩
        exact hpost
      · intro hpost
        exact ⟨(), trivial, hpost⟩
  rw [runPipeline, completes_bind, completes_findRecord, hrecord]
  simp only [Except.ok.injEq, Option.some.injEq, exists_eq_left', completes_bind,
    completes_openStream, hpath, hfile, completes_updateProgress, completes_prepareTarget]
    at hwrite ⊢
  exact exists_congr fun target ↦ and_congr_right fun _ ↦ hwrite target

/-- Assumes: the file that is read back. -/
theorem completes_readBack {target : AbsolutePath} {key : String}
    (htarget : resolved env.root key = .ok target) (hfile : held.files target = some bytes)
    {post : Metadata → Held → Prop} :
    Completes env (readBack ⟨env.toRuntime, payload⟩ key) post held ↔
      ∃ metadata, env.packages.metadata bytes = .ok metadata ∧ post metadata held := by
  have hread : Completes env (Program.ofExcept ((env.packages.metadata bytes).mapError
      fun message ↦ .thrown (.error message))) post held ↔
        ∃ metadata, env.packages.metadata bytes = .ok metadata ∧ post metadata held := by
    rw [Completes, wp_ofExcept]
    cases env.packages.metadata bytes with
    | error message => simp [Program.Settles, Except.mapError]
    | ok metadata => simp [Program.Settles, Except.mapError]
  rw [readBack, completes_bind, completes_openStream]
  simp only [htarget, hfile, Except.ok.injEq, Option.some.injEq, exists_eq_left', completes_bind]
  rw [completes_awaitChain, Env.flow, readSource, hfile]
  simp only [Except.ok.injEq, exists_eq_left']
  exact hread

/-- The last report of progress. -/
theorem completes_done {result : ProcessorResult} {post : ProcessorResult → Held → Prop} :
    Completes env (do
      updateProgress 100
      return result) post held ↔ post result held := by
  rw [completes_bind, completes_updateProgress, completes_pure]

/-- Assumes: after the image is stored, what is left returns the details, where there are any. -/
theorem completes_image (work : ImageWork) (details : Metadata → Bytes → Option Fields)
    {rest : Metadata → StoredFile → JobTask ProcessorResult}
    {post : ProcessorResult → Held → Prop}
    (hrest : ∀ metadata key target output after, resolved env.root key = .ok target →
      after.files target = some output →
        (Completes env (rest metadata { key := key, size := output.length }) post after ↔
          ∃ found, details metadata output = some found ∧
            post { outputs := [key], details := some (.object found) } after)) :
    Completes env (do
      let metadata ← openImage ⟨env.toRuntime, payload⟩
      updateProgress 20
      let output ← runPipeline ⟨env.toRuntime, payload⟩ work.edit work.suffix (work.ext metadata)
      rest metadata output) post held ↔
        ∃ product, imageProduct env held.files payload.fileId work details = some product ∧
          Stored env product post held := by
  rw [completes_bind, completes_openImage]
  simp only [completes_bind, completes_updateProgress, imageProduct_eq_some_iff]
  constructor
  · rintro ⟨⟨record, bytes⟩, hsource, metadata, hmetadata, hsize, hpost⟩
    rw [completes_runPipeline hsource] at hpost
    obtain ⟨target, htarget, output, hedit, hpost⟩ := hpost
    rw [hrest metadata _ target output _ htarget (files_write held target output)] at hpost
    obtain ⟨found, hfound, hpost⟩ := hpost
    exact ⟨_, ⟨_, hsource, metadata, hmetadata, hsize, output, hedit, found, hfound, rfl⟩,
      target, htarget, hpost⟩
  · rintro ⟨_, ⟨⟨record, bytes⟩, hsource, metadata, hmetadata, hsize, output, hedit, found, hfound,
      rfl⟩, target, htarget, hpost⟩
    refine ⟨_, hsource, metadata, hmetadata, hsize, ?_⟩
    rw [completes_runPipeline hsource]
    refine ⟨target, htarget, output, hedit, ?_⟩
    rw [hrest metadata _ target output _ htarget (files_write held target output)]
    exact ⟨found, hfound, hpost⟩

end Image

/-! ### The processors -/

section Processors

variable {env : Env} {held : Held} {payload : JobPayload} {post : ProcessorResult → Held → Prop}

/-- Options that are refused complete nothing. -/
theorem completes_usable {Options : Type} {name : String} {parsed : Option Options}
    {rest : Options → JobTask ProcessorResult} {product : Options → Option Product}
    (hrest : ∀ options, Completes env (rest options) post held ↔
      ∃ found, product options = some found ∧ Stored env found post held) :
    Completes env (usable ⟨env.toRuntime, payload⟩ name parsed >>= rest) post held ↔
      ∃ found, parsed.bind product = some found ∧ Stored env found post held := by
  cases parsed with
  | none =>
    refine iff_of_false (fun h ↦ ?_) (by simp)
    rw [completes_bind, usable] at h
    exact not_completes_fail _ h
  | some options =>
    rw [completes_bind, usable, completes_pure]
    exact hrest options

theorem resizeDetails_eq_some_iff {metadata : Metadata} {output : Bytes} {found : Fields} :
    resizeDetails env metadata output = some found ↔
      ∃ resultMeta, env.packages.metadata output = .ok resultMeta ∧
        sourceSize metadata ++ field "width" (resultMeta.width.map number) ++
          field "height" (resultMeta.height.map number) ++
          field "format" (resultMeta.format.map .string) ++ [("bytes", number output.length)] =
            found := by
  simp only [resizeDetails, bind, pure, Option.bind_eq_some_iff, toOption_eq_some_iff,
    Option.some.injEq]

theorem completes_resizeImage :
    Completes env (resizeImage ⟨env.toRuntime, payload⟩) post held ↔
      ∃ found, ((ResizeOptionsSchema.safeParse payload.options).bind fun options ↦
        imageProduct env held.files payload.fileId (resizeWork options) (resizeDetails env)) =
          some found ∧ Stored env found post held := by
  rw [resizeImage]
  refine completes_usable fun options ↦ completes_image (resizeWork options) (resizeDetails env) ?_
  intro metadata key target output after htarget hfile
  rw [completes_bind, completes_readBack htarget hfile]
  simp only [completes_done, resizeDetails_eq_some_iff, exists_exists_and_eq_and]
  exact Iff.rfl

theorem completes_convertImage :
    Completes env (convertImage ⟨env.toRuntime, payload⟩) post held ↔
      ∃ found, ((ConvertOptionsSchema.safeParse payload.options).bind fun options ↦
        imageProduct env held.files payload.fileId (convertWork options)
          (convertDetails options)) = some found ∧ Stored env found post held := by
  rw [convertImage]
  refine completes_usable fun options ↦
    completes_image (convertWork options) (convertDetails options) ?_
  intro metadata key target output after _ _
  rw [completes_done, convertDetails]
  simp only [Option.some.injEq, exists_eq_left']

theorem completes_thumbnailImage :
    Completes env (thumbnailImage ⟨env.toRuntime, payload⟩) post held ↔
      ∃ found, ((ThumbnailOptionsSchema.safeParse payload.options).bind fun options ↦
        imageProduct env held.files payload.fileId (thumbnailWork options)
          (thumbnailDetails options)) = some found ∧ Stored env found post held := by
  rw [thumbnailImage]
  refine completes_usable fun options ↦
    completes_image (thumbnailWork options) (thumbnailDetails options) ?_
  intro metadata key target output after _ _
  rw [completes_done, thumbnailDetails, sourceSize]
  simp only [Option.some.injEq, exists_eq_left', List.append_assoc]

theorem reportProduct_eq_some_iff {files : AbsolutePath → Option Bytes} {fileId : String}
    {options : Delimited Validate.ValidateOptions} {product : Product} :
    reportProduct env files fileId options = some product ↔
      ∃ source, sourceOf env files fileId = some source ∧
        ∃ report, inspectText env.packages options source.2 = .ok report ∧
          product = ⟨OutputKeys.outputKey source.1.originalName "report" ".json" env.fresh,
            env.packages.reportText report, reportDetails report⟩ := by
  simp only [reportProduct, bind, pure, Option.bind_eq_some_iff, toOption_eq_some_iff,
    Option.some.injEq, eq_comm (b := product)]

theorem rewriteProduct_eq_some_iff {files : AbsolutePath → Option Bytes} {fileId : String}
    {options : Delimited Transform.TransformOptions} {product : Product} :
    rewriteProduct env files fileId options = some product ↔
      ∃ source, sourceOf env files fileId = some source ∧
        ∃ written, reshapeText env.packages options source.2 = .ok written ∧
          product = ⟨OutputKeys.outputKey source.1.originalName "clean" ".csv" env.fresh,
            written.2, rewriteDetails written.1 written.2⟩ := by
  simp only [rewriteProduct, bind, pure, Option.bind_eq_some_iff, toOption_eq_some_iff,
    Option.some.injEq, eq_comm (b := product)]

/-- Assumes: the bytes of the file. -/
theorem completes_inspect {path : AbsolutePath} {bytes : Bytes}
    (hfile : held.files path = some bytes) {options : Delimited Validate.ValidateOptions}
    {post : Validate.ValidationReport → Held → Prop} :
    Completes env (awaitChain (.inspect path options)) post held ↔
      ∃ report, inspectText env.packages options bytes = .ok report ∧ post report held := by
  rw [completes_awaitChain, Env.flow, inspected, readSource, hfile]
  exact Iff.rfl

/-- The part of `validateCsv` after its `try`. -/
theorem completes_writeReport {report : Validate.ValidationReport} {key : String} :
    Completes env (do
      updateProgress 80
      let target ← prepareTarget env.root key
      awaitChain (.writeReport report target)
      let stored ← storedAt key target
      updateProgress 100
      return ({ outputs := [stored.key], details := some (.object (reportDetails report)) } :
        ProcessorResult)) post held ↔
      Stored env ⟨key, env.packages.reportText report, reportDetails report⟩ post held := by
  rw [completes_bind, completes_updateProgress, completes_bind, completes_prepareTarget, Stored]
  refine exists_congr fun target ↦ and_congr_right fun _ ↦ ?_
  have hwrite : env.flow (.writeReport report target) held =
      (.ok (), held.write target (env.packages.reportText report)) := rfl
  rw [completes_bind, completes_awaitChain, hwrite]
  simp only [completes_bind, completes_storedAt (files_write held target _),
    completes_updateProgress, completes_pure]
  exact ⟨fun ⟨_, _, hpost⟩ ↦ hpost, fun hpost ↦ ⟨(), trivial, hpost⟩⟩

theorem completes_validateCsv :
    Completes env (validateCsv ⟨env.toRuntime, payload⟩) post held ↔
      ∃ found, ((ValidateOptionsSchema.safeParse payload.options).bind fun options ↦
        reportProduct env held.files payload.fileId options) = some found ∧
          Stored env found post held := by
  rw [validateCsv]
  refine completes_usable fun options ↦ ?_
  rw [completes_bind, completes_findRecord]
  simp only [completes_bind, completes_updateProgress, completes_rethrowing, inspectSource,
    completes_openStream, reportProduct_eq_some_iff, sourceOf_eq_some_iff]
  constructor
  · rintro ⟨record, hrecord, path, hpath, bytes, hfile, hrest⟩
    obtain ⟨report, hreport, hstored⟩ := (completes_inspect hfile).mp hrest
    exact ⟨_, ⟨(record, bytes), ⟨hrecord, path, hpath, hfile⟩, report, hreport, rfl⟩,
      completes_writeReport.mp hstored⟩
  · rintro ⟨_, ⟨⟨record, bytes⟩, ⟨hrecord, path, hpath, hfile⟩, report, hreport, rfl⟩, hstored⟩
    exact ⟨record, hrecord, path, hpath, bytes, hfile,
      (completes_inspect hfile).mpr ⟨report, hreport, completes_writeReport.mpr hstored⟩⟩

/-- Assumes: the bytes of the file. The part of `transformCsv` from the pipeline on. -/
theorem completes_rewriteCsv {path : AbsolutePath} {bytes : Bytes} {key : String}
    (hfile : held.files path = some bytes) {options : Delimited Transform.TransformOptions}
    {post : Transform.ReshapeState × StoredFile → Held → Prop} :
    Completes env (do
      let target ← prepareTarget env.root key
      let final ← awaitChain (.rewriteCsv path options target)
      let stored ← storedAt key target
      return (final, stored)) post held ↔
      ∃ written, reshapeText env.packages options bytes = .ok written ∧
        ∃ target, resolved env.root key = .ok target ∧
          post (written.1, ⟨key, written.2.length⟩) (held.write target written.2) := by
  have hreshaped : reshaped env.packages held.files path options =
      reshapeText env.packages options bytes := by
    rw [reshaped, readSource, hfile]
    rfl
  have hchain (target : AbsolutePath) : Completes env (do
      let final ← awaitChain (.rewriteCsv path options target)
      let stored ← storedAt key target
      return (final, stored)) post held ↔
        ∃ written, reshapeText env.packages options bytes = .ok written ∧
          post (written.1, ⟨key, written.2.length⟩) (held.write target written.2) := by
    rw [completes_bind, completes_awaitChain, Env.flow, hreshaped]
    cases reshapeText env.packages options bytes with
    | error fault => simp
    | ok written =>
      simp only [Except.ok.injEq, exists_eq_left', completes_bind,
        completes_storedAt (files_write held target written.2), completes_pure]
  rw [completes_bind, completes_prepareTarget]
  simp only [hchain]
  constructor
  · rintro ⟨target, htarget, written, hwritten, hpost⟩
    exact ⟨written, hwritten, target, htarget, hpost⟩
  · rintro ⟨written, hwritten, target, htarget, hpost⟩
    exact ⟨target, htarget, written, hwritten, hpost⟩

theorem completes_rewriteSource {record : FileRecord}
    {options : Delimited Transform.TransformOptions}
    {post : Transform.ReshapeState × StoredFile → Held → Prop} :
    Completes env (rewriteSource ⟨env.toRuntime, payload⟩ record options) post held ↔
      ∃ path, resolved env.root record.storageKey = .ok path ∧
        ∃ bytes, held.files path = some bytes ∧
          ∃ written, reshapeText env.packages options bytes = .ok written ∧
            ∃ target, resolved env.root
                (OutputKeys.outputKey record.originalName "clean" ".csv" env.fresh) = .ok target ∧
              post (written.1, ⟨OutputKeys.outputKey record.originalName "clean" ".csv" env.fresh,
                written.2.length⟩) (held.write target written.2) := by
  rw [rewriteSource, completes_bind, completes_openStream]
  exact exists_congr fun path ↦ and_congr_right fun _ ↦ exists_congr fun bytes ↦
    and_congr_right fun hfile ↦ completes_rewriteCsv hfile

theorem completes_transformCsv :
    Completes env (transformCsv ⟨env.toRuntime, payload⟩) post held ↔
      ∃ found, ((TransformOptionsSchema.safeParse payload.options).bind fun options ↦
        rewriteProduct env held.files payload.fileId options) = some found ∧
          Stored env found post held := by
  rw [transformCsv]
  refine completes_usable fun options ↦ ?_
  rw [completes_bind, completes_findRecord]
  simp only [completes_bind, completes_updateProgress, completes_rethrowing,
    completes_rewriteSource, completes_pure, rewriteProduct_eq_some_iff, sourceOf_eq_some_iff]
  constructor
  · rintro ⟨record, hrecord, path, hpath, bytes, hfile, written, hwritten, hstored⟩
    exact ⟨_, ⟨(record, bytes), ⟨hrecord, path, hpath, hfile⟩, written, hwritten, rfl⟩, hstored⟩
  · rintro ⟨_, ⟨⟨record, bytes⟩, ⟨hrecord, path, hpath, hfile⟩, written, hwritten, rfl⟩, hstored⟩
    exact ⟨record, hrecord, path, hpath, bytes, hfile, written, hwritten, hstored⟩

/-- A processor completes exactly when its operation has a product that can be stored. -/
theorem completes_processors :
    Completes env (processors payload.operation ⟨env.toRuntime, payload⟩) post held ↔
      ∃ found, productOf env held.files payload = some found ∧ Stored env found post held := by
  obtain ⟨fileId, operation, options⟩ := payload
  cases operation with
  | imageResize => exact completes_resizeImage
  | imageConvert => exact completes_convertImage
  | imageThumbnail => exact completes_thumbnailImage
  | csvValidate => exact completes_validateCsv
  | csvTransform => exact completes_transformCsv

end Processors

/-! ### CSV products -/

section Csv

variable {env : Env} {files : AbsolutePath → Option Bytes} {fileId : String}
  {source : FileRecord × Bytes} {records : List Streams.Record}

theorem toOption_mapError {ε ε' α : Type} (f : ε → ε') (outcome : Except ε α) :
    (outcome.mapError f).toOption = outcome.toOption := by
  cases outcome <;> rfl

/-- Assumes: a text that splits into records. The report is the one of `csv.validate`. -/
theorem reportProduct_of_records {options : Delimited Validate.ValidateOptions}
    (hsource : sourceOf env files fileId = some source)
    (hrecords : env.packages.records options.delimiter.text source.2 = (records, none)) :
    reportProduct env files fileId options =
      (Validate.validateCsv env.packages.parser options.options records).toOption.map
        fun result ↦ ⟨OutputKeys.outputKey source.1.originalName "report" ".json" env.fresh,
          env.packages.reportText result.report, reportDetails result.report⟩ := by
  have htext := congrArg Except.toOption (inspectText_eq hrecords)
  rw [toOption_mapError, toOption_mapError] at htext
  rw [reportProduct, hsource]
  show (inspectText env.packages options source.2).toOption.bind _ = _
  rw [htext]
  cases Validate.validateCsv env.packages.parser options.options records <;> rfl

/-- Assumes: a text that splits into records. The table is the one of `csv.transform`. -/
theorem rewriteProduct_of_records {options : Delimited Transform.TransformOptions}
    (hsource : sourceOf env files fileId = some source)
    (hrecords : env.packages.records options.delimiter.text source.2 = (records, none)) :
    rewriteProduct env files fileId options =
      (Transform.transformCsv env.packages.parser env.packages.stringifier options.options
        records).toOption.map fun result ↦
          ⟨OutputKeys.outputKey source.1.originalName "clean" ".csv" env.fresh,
            env.packages.csvText result.file,
            rewriteDetails ⟨result.rowsIn, result.rowsOut, result.rowsDropped, result.columns⟩
              (env.packages.csvText result.file)⟩ := by
  have htext := congrArg Except.toOption (reshapeText_eq hrecords)
  rw [toOption_mapError, toOption_mapError] at htext
  rw [rewriteProduct, hsource]
  show (reshapeText env.packages options source.2).toOption.bind _ = _
  rw [htext]
  cases Transform.transformCsv env.packages.parser env.packages.stringifier options.options
    records <;> rfl

end Csv

/-! ### The keys of products -/

theorem pathFor_of_resolved {root target : AbsolutePath} {key : String}
    (h : resolved root key = .ok target) : Storage.LocalStorage.pathFor root key = .ok target := by
  unfold resolved at h
  split at h
  · rename_i path hpath
    split_ifs at h
    rw [hpath, Except.ok.inj h]
  · cases h
  · cases h

/-- The operation is one on images. -/
def OnImages (operation : Operation) : Prop := operation ∈ operationsByKind .image

section Keys

variable {env : Env} {files : AbsolutePath → Option Bytes} {product : Product}

theorem record_of_source {fileId : String} {source : FileRecord × Bytes}
    (h : sourceOf env files fileId = some source) :
    recordOf env fileId = .ok (some source.1) := (sourceOf_eq_some_iff.mp h).1

theorem key_of_imageProduct {fileId : String} {work : ImageWork}
    {details : Metadata → Bytes → Option Fields}
    (h : imageProduct env files fileId work details = some product) :
    ∃ record metadata, recordOf env fileId = .ok (some record) ∧
      product.key = imageKey record.storageKey work.suffix (work.ext metadata) env.fresh := by
  simp only [imageProduct, Option.bind_eq_bind, Option.bind_eq_some_iff] at h
  obtain ⟨⟨record, bytes⟩, hsource, metadata, -, -, -, output, -, found, -, hproduct⟩ := h
  exact ⟨record, metadata, record_of_source hsource, by rw [← Option.some.inj hproduct]⟩

theorem key_of_productOf {payload : JobPayload} (h : productOf env files payload = some product) :
    ∃ record, recordOf env payload.fileId = .ok (some record) ∧
      ((∃ work metadata, IsImageWork work ∧
        product.key = imageKey record.storageKey work.suffix (work.ext metadata) env.fresh) ∨
      ¬ OnImages payload.operation ∧ ∃ kind : Csv.OutputKeys.Product, product.key =
        Csv.OutputKeys.outputKey record.originalName kind.suffix kind.ext env.fresh) := by
  obtain ⟨fileId, operation, options⟩ := payload
  cases operation with
  | imageResize =>
    obtain ⟨parsed, -, hproduct⟩ := Option.bind_eq_some_iff.mp h
    obtain ⟨record, metadata, hrecord, hkey⟩ := key_of_imageProduct hproduct
    exact ⟨record, hrecord, Or.inl ⟨_, metadata, .resize parsed, hkey⟩⟩
  | imageConvert =>
    obtain ⟨parsed, -, hproduct⟩ := Option.bind_eq_some_iff.mp h
    obtain ⟨record, metadata, hrecord, hkey⟩ := key_of_imageProduct hproduct
    exact ⟨record, hrecord, Or.inl ⟨_, metadata, .convert parsed, hkey⟩⟩
  | imageThumbnail =>
    obtain ⟨parsed, -, hproduct⟩ := Option.bind_eq_some_iff.mp h
    obtain ⟨record, metadata, hrecord, hkey⟩ := key_of_imageProduct hproduct
    exact ⟨record, hrecord, Or.inl ⟨_, metadata, .thumbnail parsed, hkey⟩⟩
  | csvValidate =>
    obtain ⟨parsed, -, hproduct⟩ := Option.bind_eq_some_iff.mp h
    simp only [reportProduct, Option.bind_eq_bind, Option.bind_eq_some_iff] at hproduct
    obtain ⟨⟨record, bytes⟩, hsource, report, -, hproduct⟩ := hproduct
    have hother : ¬ OnImages .csvValidate := by
      unfold OnImages
      decide
    exact ⟨record, record_of_source hsource, Or.inr ⟨hother, .report,
      by rw [← Option.some.inj hproduct]; rfl⟩⟩
  | csvTransform =>
    obtain ⟨parsed, -, hproduct⟩ := Option.bind_eq_some_iff.mp h
    simp only [rewriteProduct, Option.bind_eq_bind, Option.bind_eq_some_iff] at hproduct
    obtain ⟨⟨record, bytes⟩, hsource, rewritten, -, hproduct⟩ := hproduct
    have hother : ¬ OnImages .csvTransform := by
      unfold OnImages
      decide
    exact ⟨record, record_of_source hsource, Or.inr ⟨hother, .clean,
      by rw [← Option.some.inj hproduct]; rfl⟩⟩

end Keys

/-! ### The job -/

section Job

variable {env : Env} {data : Json} {files after : AbsolutePath → Option Bytes}
  {result : ProcessorResult}

/-- How an attempt ends, and the files that it leaves. -/
theorem ends_iff_completes :
    (attempt env data files = .ok result ∧
        (Program.run env.world (runJobWithRetryPolicy env.toRuntime data) 0
          { files := files }).state.files = after) ↔
      Completes env (runJobWithRetryPolicy env.toRuntime data)
        (fun found held ↦ found = result ∧ held.files = after) { files := files } := by
  rw [completes_iff_run, attempt]
  constructor
  · rintro ⟨houtcome, hafter⟩
    exact ⟨result, houtcome, rfl, hafter⟩
  · rintro ⟨_, houtcome, rfl, hafter⟩
    exact ⟨houtcome, hafter⟩

/-- An attempt completes exactly when its payload parses and has a product that can be stored. -/
theorem completes_runJobWithRetryPolicy {post : ProcessorResult → Held → Prop} {held : Held} :
    Completes env (runJobWithRetryPolicy env.toRuntime data) post held ↔
      ∃ payload product, JobPayloadSchema.safeParse data = some payload ∧
        productOf env held.files payload = some product ∧ Stored env product post held := by
  rw [runJobWithRetryPolicy, completes_rethrowing, runJob]
  cases JobPayloadSchema.safeParse data with
  | none => exact iff_of_false (not_completes_fail _) (by simp)
  | some payload =>
    rw [completes_processors]
    constructor
    · rintro ⟨product, hproduct, hstored⟩
      exact ⟨payload, product, rfl, hproduct, hstored⟩
    · rintro ⟨_, product, ⟨⟩, hproduct, hstored⟩
      exact ⟨product, hproduct, hstored⟩

end Job

/-- An attempt ends with a result, and leaves some files, exactly when its payload parses and has a
product that can be stored: the result reports the product, and the files are those before it with
the product under its key. -/
theorem attempt_completes_iff (env : Env) (data : Json) (files after : AbsolutePath → Option Bytes)
    (result : ProcessorResult) :
    (attempt env data files = .ok result ∧
        (Program.run env.world (runJobWithRetryPolicy env.toRuntime data) 0
          { files := files }).state.files = after) ↔
      ∃ payload product target, JobPayloadSchema.safeParse data = some payload ∧
        productOf env files payload = some product ∧
        resolved env.root product.key = .ok target ∧ result = product.result ∧
          after = Function.update files target (some product.bytes) := by
  rw [ends_iff_completes, completes_runJobWithRetryPolicy]
  constructor
  · rintro ⟨payload, product, hpayload, hproduct, target, htarget, hresult, hafter⟩
    exact ⟨payload, product, target, hpayload, hproduct, htarget, hresult.symm, hafter.symm⟩
  · rintro ⟨payload, product, target, hpayload, hproduct, htarget, rfl, rfl⟩
    exact ⟨payload, product, hpayload, hproduct, target, htarget, rfl, rfl⟩

end FileForge.Jobs.Products
