import FileForge.Jobs.Attempts

/-!
# Jobs that fail once

A failed attempt that met no trouble will fail again, and the retry policy gives the job up when the
error is of one of the four permanent classes. `failsOnce_iff` says for which job data, records and
bytes that is so: the payload parses, the stored record is JSON, and what goes wrong goes wrong
where the processor looks for it, in the options, the probe of an image or the reading of a CSV.
Past these, an image has to survive its edit, its result has to be readable, and the keys of the
results have to lie inside the storage.

The attempt is followed backwards: `Foresees` is the condition on the state before a part of it, and
each part has its rule.
-/

set_option autoImplicit false
set_option relaxedAutoImplicit false

namespace FileForge.Jobs.HopelessJobs

open Foundation Foundation.JsonValue Foundation.Interaction Foundation.PosixPath
open Foundation.WeakestPrecondition
open Foundation.FileTree (Bytes)
open Shared.Contract Files.Repository Csv Errors JobOptions Processors Attempts
open Worker (ProcessorResult)
open Storage.LocalStorage (StoredFile)

/-! ### The attempt -/

/-- How an attempt without trouble ends under the retry policy. -/
def attempt (env : Env) (data : Json) (files : AbsolutePath → Option Bytes) :
    Except Fault ProcessorResult :=
  (Program.run env.world (runJobWithRetryPolicy env.toRuntime data) 0 { files := files }).outcome

/-- If the attempt fails, it fails with an error after which no other is made. -/
def FailsOnce (outcome : Except Fault ProcessorResult) : Prop :=
  ∀ fault, outcome = .error fault →
    ∃ error, fault = .thrown error ∧ error.isUnrecoverable = true

/-! ### What the processors foresee -/

section Conditions

variable (env : Env) (files : AbsolutePath → Option Bytes)

/-- The record of a file: `null` when there is none, or the exception of `JSON.parse`. -/
def recordOf (fileId : String) : Except String (Option FileRecord) :=
  Files.Repository.get env.db env.now fileId

/-- What is stored under the id of a record, if anything, is JSON. -/
def RecordIsJson (fileId : String) : Prop :=
  ExpiringStore.get env.db env.now (keyFor fileId) ≠ some none

/-- What an image operation does with an open image. -/
structure ImageWork where
  edit : ImageEdit
  suffix : String
  ext : Metadata → String
  readsBack : Bool

def resizeWork (options : ResizeOptions) : ImageWork where
  edit := .resize options
  suffix := "resized"
  ext metadata := (formatExtensions.lookup (metadata.format.getD "png")).getD ".png"
  readsBack := true

def convertWork (options : ConvertOptions) : ImageWork where
  edit := .toFormat options
  suffix := options.format.text
  ext _ := (formatExtensions.lookup options.format.text).getD ".bin"
  readsBack := false

def thumbnailWork (options : ThumbnailOptions) : ImageWork where
  edit := .thumbnail options
  suffix := "thumb" ++ toString options.size.value
  ext _ := ".webp"
  readsBack := false

/-- An image whose header is in order goes through to its end: the key of the result is not refused,
the edit succeeds on the whole of the image, and the result can be read where it is read back. -/
def GoesThrough (work : ImageWork) (storageKey : String) (bytes : Bytes) (metadata : Metadata) :
    Prop :=
  (∃ target, resolved env.root
      (imageKey storageKey work.suffix (work.ext metadata) env.fresh) = .ok target) ∧
    ∃ output, env.packages.edit work.edit bytes = .ok output ∧
      (work.readsBack = true → ∃ found, env.packages.metadata output = .ok found)

def ImageForeseen (fileId : String) (work : ImageWork) : Prop :=
  RecordIsJson env fileId ∧ ∀ record source bytes metadata,
    recordOf env fileId = .ok (some record) →
    resolved env.root record.storageKey = .ok source → files source = some bytes →
    env.packages.metadata bytes = .ok metadata → metadata.HasSize →
      GoesThrough env work record.storageKey bytes metadata

/-- The key of a report is not refused. -/
def ReportForeseen (fileId : String) (options : Delimited Validate.ValidateOptions) : Prop :=
  RecordIsJson env fileId ∧ ∀ record source report,
    recordOf env fileId = .ok (some record) →
    resolved env.root record.storageKey = .ok source →
    inspected env.packages files source options = .ok report →
      ∃ target, resolved env.root
        (OutputKeys.outputKey record.originalName "report" ".json" env.fresh) = .ok target

/-- What goes wrong with a payload goes wrong where its processor looks for it. Options that are
refused are foreseen. -/
def Foreseen (payload : JobPayload) : Prop :=
  match payload.operation with
  | .imageResize => ∀ options, ResizeOptionsSchema.safeParse payload.options = some options →
    ImageForeseen env files payload.fileId (resizeWork options)
  | .imageConvert => ∀ options, ConvertOptionsSchema.safeParse payload.options = some options →
    ImageForeseen env files payload.fileId (convertWork options)
  | .imageThumbnail => ∀ options, ThumbnailOptionsSchema.safeParse payload.options = some options →
    ImageForeseen env files payload.fileId (thumbnailWork options)
  | .csvValidate => ∀ options, ValidateOptionsSchema.safeParse payload.options = some options →
    ReportForeseen env files payload.fileId options
  | .csvTransform => ∀ options, TransformOptionsSchema.safeParse payload.options = some options →
    RecordIsJson env payload.fileId

end Conditions

/-! ### Failures that a retry cannot fix -/

/-- A failure that the retry policy marks, or that is marked already. -/
def Permanent (fault : Fault) : Prop :=
  ∃ error, fault = .thrown error ∧ error.marked.isUnrecoverable = true

theorem not_permanent_error (message : String) : ¬ Permanent (.thrown (.error message)) := by
  rintro ⟨error, herror, hmarked⟩
  obtain rfl := Fault.thrown.inj herror
  cases hmarked

theorem not_permanent_unsettled : ¬ Permanent .unsettled := by
  rintro ⟨error, herror, -⟩
  cases herror

/-- The condition on the state before a part of an attempt: what it throws is permanent, and what
it ends with meets the postcondition. -/
def Foresees (env : Env) {α : Type} (program : JobTask α) (post : α → Held → Prop)
    (held : Held) : Prop :=
  wp env.answer (fun fault _ ↦ Permanent fault) program post held

section Rules

variable {env : Env} {α β : Type} {held : Held}

theorem foresees_bind {program : JobTask α} {rest : α → JobTask β} {post : β → Held → Prop} :
    Foresees env (program >>= rest) post held ↔
      Foresees env program (fun result ↦ Foresees env (rest result) post) held := wp_bind

theorem foresees_pure (result : α) {post : α → Held → Prop} :
    Foresees env (pure result) post held ↔ post result held := wp_pure result

theorem foresees_fail (error : JobError) {post : α → Held → Prop} :
    Foresees env (Processors.fail error) post held ↔ Permanent (.thrown error) := wp_throw _

theorem foresees_updateProgress {value : ℕ} {post : Unit → Held → Prop} :
    Foresees env (updateProgress value) post held ↔ post () held := wp_perform

/-- A handler that makes every error permanent leaves only what it does not hear of. -/
theorem foresees_rethrowing {label : JobError → JobError}
    (hlabel : ∀ error, (label error).marked.isUnrecoverable = true) {body : JobTask α}
    {post : α → Held → Prop} :
    Foresees env (rethrowing label body) post held ↔
      wp env.answer (fun fault _ ↦ fault ≠ .unsettled) body post held := by
  rw [Foresees, rethrowing, wp_handle]
  refine wp_congr (fun _ _ ↦ Iff.rfl) fun fault _ ↦ ?_
  rw [wp_throw]
  cases fault with
  | thrown error => exact iff_of_true ⟨_, rfl, hlabel error⟩ (by simp)
  | unsettled => exact iff_of_false not_permanent_unsettled (by simp)

end Rules

/-- The attempt fails once exactly when the job foresees its failures. -/
theorem failsOnce_attempt_iff (env : Env) (data : Json) (files : AbsolutePath → Option Bytes) :
    FailsOnce (attempt env data files) ↔
      Foresees env (runJob env.toRuntime data) (fun _ _ ↦ True) { files := files } := by
  have hsettles (outcome : Except Fault ProcessorResult) (held : Held) :
      FailsOnce outcome ↔ Program.Settles (fun _ _ ↦ True)
        (fun fault _ ↦ ∃ error, fault = Fault.thrown error ∧ error.isUnrecoverable = true)
        outcome held := by
    cases outcome with
    | ok result => simp [FailsOnce, Program.Settles]
    | error fault => simp [FailsOnce, Program.Settles]
  rw [attempt, hsettles, Env.world, ← wp_iff_settles, runJobWithRetryPolicy, rethrowing, wp_handle]
  refine wp_congr (fun _ _ ↦ Iff.rfl) fun fault _ ↦ ?_
  rw [wp_throw]
  cases fault with
  | thrown error => simp [Permanent, Fault.relabel]
  | unsettled => simp [Permanent, Fault.relabel]

/-! ### The parts -/

section Parts

variable {env : Env} {held : Held}

theorem foresees_getRecord {fileId : String} {post : Option FileRecord → Held → Prop} :
    Foresees env (getRecord fileId) post held ↔
      RecordIsJson env fileId ∧ ∀ record, recordOf env fileId = .ok record → post record held := by
  have hanswer : env.answer (.redisGet (keyFor fileId)) held =
      (.ok (ExpiringStore.get env.db env.now (keyFor fileId)), held) := rfl
  rw [Foresees, getRecord, wp_bind, wp_perform, hanswer]
  unfold recordOf Files.Repository.get RecordIsJson
  rcases ExpiringStore.get env.db env.now (keyFor fileId) with _ | _ | value
  · simp [Program.Settles]
  · simp [Program.Settles, Processors.fail, not_permanent_error]
  · simp [Program.Settles]

theorem foresees_findRecord {args : ProcessorArgs} {post : FileRecord → Held → Prop} :
    Foresees env (findRecord args) post held ↔
      RecordIsJson env args.payload.fileId ∧
        ∀ record, recordOf env args.payload.fileId = .ok (some record) → post record held := by
  rw [findRecord, foresees_bind, foresees_getRecord]
  refine and_congr_right fun _ ↦ ?_
  constructor
  · intro h record hrecord
    exact (foresees_pure record).mp (h (some record) hrecord)
  · intro h record hrecord
    cases record with
    | none => exact (foresees_fail _).mpr ⟨_, rfl, rfl⟩
    | some record => exact (foresees_pure record).mpr (h record hrecord)

/-- Assumes: a record that is found. -/
theorem foresees_findRecord_of_found {args : ProcessorArgs} {record : FileRecord}
    (hrecord : recordOf env args.payload.fileId = .ok (some record))
    {post : FileRecord → Held → Prop} :
    Foresees env (findRecord args) post held ↔ post record held := by
  rw [foresees_findRecord]
  constructor
  · rintro ⟨-, h⟩
    exact h record hrecord
  · intro h
    refine ⟨fun hstored ↦ ?_, fun other hother ↦ ?_⟩
    · simp [recordOf, Files.Repository.get, hstored] at hrecord
    · rw [hrecord, Except.ok.injEq, Option.some.injEq] at hother
      exact hother ▸ h

theorem answer_stat (path : AbsolutePath) :
    env.answer (.stat path) held =
      ((held.files path).elim (.error (.thrown missing)) fun bytes ↦ .ok bytes.length, held) := by
  cases hfile : held.files path <;> simp [Env.answer, hfile]

theorem foresees_writeReport {report : Validate.ValidationReport} {target : AbsolutePath}
    {post : Unit → Held → Prop} :
    Foresees env (awaitChain (.writeReport report target)) post held ↔
      post () (held.write target (env.packages.reportText report)) := wp_perform

/-- `open`, under any handler. -/
theorem wp_openStream {faulty : Fault → Held → Prop} {root : AbsolutePath} {key : String}
    {post : AbsolutePath → Held → Prop} :
    wp env.answer faulty (openStream root key) post held ↔
      (∀ error, resolved root key = .error error → faulty (.thrown error) held) ∧
        ∀ path, resolved root key = .ok path →
          (held.files path).elim (faulty (.thrown missing) held) fun _ ↦ post path held := by
  rw [openStream, wp_bind, resolveKey, wp_ofExcept]
  cases resolved root key with
  | error error => simp [Program.Settles, Except.mapError]
  | ok path =>
    show wp env.answer faulty _ post held ↔ _
    rw [wp_bind, wp_perform, answer_stat]
    cases hfile : held.files path <;> simp [Program.Settles, hfile]

/-- `open`, under a handler that hears every error. -/
theorem wp_openStream_heard {root : AbsolutePath} {key : String}
    {post : AbsolutePath → Held → Prop} :
    wp env.answer (fun fault _ ↦ fault ≠ .unsettled) (openStream root key) post held ↔
      ∀ path bytes, resolved root key = .ok path → held.files path = some bytes →
        post path held := by
  rw [wp_openStream]
  constructor
  · rintro ⟨-, hopened⟩ path bytes hpath hfile
    have hfound := hopened path hpath
    rwa [hfile] at hfound
  · intro h
    refine ⟨fun _ _ ↦ Fault.noConfusion, fun path hpath ↦ ?_⟩
    cases hfile : held.files path with
    | none => exact Fault.noConfusion
    | some bytes => exact h path bytes hpath hfile

/-- `open` of a file that is there. -/
theorem foresees_openStream_of_file {root path : AbsolutePath} {key : String} {bytes : Bytes}
    (hpath : resolved root key = .ok path) (hfile : held.files path = some bytes)
    {post : AbsolutePath → Held → Prop} :
    Foresees env (openStream root key) post held ↔ post path held := by
  rw [Foresees, wp_openStream, hpath]
  simp [hfile]

theorem not_permanent_refusal {root : AbsolutePath} {key : String} {error : JobError}
    (h : resolved root key = .error error) : ¬ Permanent (.thrown error) := by
  unfold resolved at h
  split at h
  · split_ifs at h
    exact Except.error.inj h ▸ not_permanent_error _
  · exact Except.error.inj h ▸ not_permanent_error _
  · exact Except.error.inj h ▸ not_permanent_error _

/-- The part before a pipeline, under any handler. -/
theorem wp_prepareTarget {faulty : Fault → Held → Prop} {root : AbsolutePath} {key : String}
    {post : AbsolutePath → Held → Prop} :
    wp env.answer faulty (prepareTarget root key) post held ↔
      (∀ error, resolved root key = .error error → faulty (.thrown error) held) ∧
        ∀ target, resolved root key = .ok target → post target held := by
  rw [prepareTarget, wp_bind, resolveKey, wp_ofExcept]
  cases resolved root key with
  | error error => simp [Program.Settles, Except.mapError]
  | ok target =>
    show wp env.answer faulty _ post held ↔ _
    rw [wp_bind, wp_perform]
    simp [Program.Settles, Env.answer]

theorem foresees_prepareTarget {root : AbsolutePath} {key : String}
    {post : AbsolutePath → Held → Prop} :
    Foresees env (prepareTarget root key) post held ↔
      ∃ target, resolved root key = .ok target ∧ post target held := by
  rw [Foresees, wp_prepareTarget]
  cases hresolved : resolved root key with
  | error error => simp [not_permanent_refusal hresolved]
  | ok target => simp

/-- The size of a file that is there, under any handler. -/
theorem wp_storedAt_of_file {faulty : Fault → Held → Prop} {target : AbsolutePath} {key : String}
    {bytes : Bytes} (hfile : held.files target = some bytes) {post : StoredFile → Held → Prop} :
    wp env.answer faulty (storedAt key target) post held ↔
      post { key := key, size := bytes.length } held := by
  rw [storedAt, wp_bind, wp_perform, answer_stat, hfile, Option.elim_some, settles_ok, wp_pure]

theorem foresees_storedAt_of_file {target : AbsolutePath} {key : String} {bytes : Bytes}
    (hfile : held.files target = some bytes) {post : StoredFile → Held → Prop} :
    Foresees env (storedAt key target) post held ↔
      post { key := key, size := bytes.length } held := wp_storedAt_of_file hfile

theorem files_write (held : Held) (target : AbsolutePath) (bytes : Bytes) :
    (held.write target bytes).files target = some bytes := Function.update_self _ _ _

/-- The rewriting of an image that is there. -/
theorem foresees_rewriteImage {source target : AbsolutePath} {edit : ImageEdit} {bytes : Bytes}
    (hfile : held.files source = some bytes) {post : Unit → Held → Prop} :
    Foresees env (awaitChain (.rewriteImage source edit target)) post held ↔
      ∃ output, env.packages.edit edit bytes = .ok output ∧ post () (held.write target output) := by
  rw [Foresees, awaitChain, wp_perform]
  cases hedit : env.packages.edit edit bytes with
  | error message =>
    have hanswer : env.answer (.chain (.rewriteImage source edit target)) held =
        (.error (.thrown (.error message)),
          held.leave (.chain (.rewriteImage source edit target)) env.leaves) := by
      simp only [Env.answer, Env.flow, edited_of_file hfile, hedit]
      rfl
    rw [hanswer]
    simp [Program.Settles, not_permanent_error]
  | ok output =>
    have hanswer : env.answer (.chain (.rewriteImage source edit target)) held =
        (.ok (), held.write target output) := by
      simp only [Env.answer, Env.flow, edited_of_file hfile, hedit]
      rfl
    rw [hanswer]
    simp [Program.Settles]

/-- The probe of an image that is there, under its handler. -/
theorem wp_probe {source : AbsolutePath} {bytes : Bytes} (hfile : held.files source = some bytes)
    {post : Metadata → Held → Prop} :
    wp env.answer (fun fault _ ↦ fault ≠ .unsettled) (awaitChain (.probe source)) post held ↔
      ∀ metadata, env.packages.metadata bytes = .ok metadata → post metadata held := by
  have hanswer : env.answer (.chain (.probe source)) held =
      ((env.packages.metadata bytes).mapError fun message ↦ .thrown (.error message), held) :=
    congrArg (·, held) (probed_of_file hfile)
  rw [awaitChain, wp_perform, hanswer]
  cases env.packages.metadata bytes <;> simp [Program.Settles, Except.mapError]

/-- The inspection of a text that is there, under its handler. -/
theorem wp_inspect {source : AbsolutePath} {bytes : Bytes} (hfile : held.files source = some bytes)
    {options : Delimited Validate.ValidateOptions}
    {post : Validate.ValidationReport → Held → Prop} :
    wp env.answer (fun fault _ ↦ fault ≠ .unsettled) (awaitChain (.inspect source options)) post
        held ↔
      ∀ report, inspected env.packages held.files source options = .ok report →
        post report held := by
  have hanswer : env.answer (.chain (.inspect source options)) held =
      (inspected env.packages held.files source options, held) := rfl
  rw [awaitChain, wp_perform, hanswer]
  cases hinspected : inspected env.packages held.files source options with
  | ok report => simp [Program.Settles]
  | error fault =>
    have hsettles := inspected_of_file hfile hinspected
    simp [Program.Settles, hsettles]

end Parts

/-! ### Image operations -/

section Image

variable {env : Env} {held : Held} {args : ProcessorArgs} {record : FileRecord}

theorem wp_probeImage {post : Metadata → Held → Prop} :
    wp env.answer (fun fault _ ↦ fault ≠ .unsettled) (probeImage args record) post held ↔
      ∀ source bytes metadata, resolved args.root record.storageKey = .ok source →
        held.files source = some bytes → env.packages.metadata bytes = .ok metadata →
          post metadata held := by
  rw [probeImage, wp_bind, wp_openStream_heard]
  constructor
  · intro h source bytes metadata hsource hfile
    exact (wp_probe hfile).mp (h source bytes hsource hfile) metadata
  · intro h source bytes hsource hfile
    exact (wp_probe hfile).mpr fun metadata ↦ h source bytes metadata hsource hfile

theorem foresees_openImage {post : Metadata → Held → Prop} :
    Foresees env (openImage args) post held ↔
      RecordIsJson env args.payload.fileId ∧ ∀ record source bytes metadata,
        recordOf env args.payload.fileId = .ok (some record) →
        resolved args.root record.storageKey = .ok source → held.files source = some bytes →
        env.packages.metadata bytes = .ok metadata → metadata.HasSize → post metadata held := by
  have hsize (metadata : Metadata) :
      Foresees env (if metadata.HasSize then pure metadata
          else Processors.fail (.invalidImage "no dimensions could be read")) post held ↔
        (metadata.HasSize → post metadata held) := by
    split_ifs with h
    · simp [foresees_pure, h]
    · exact iff_of_true ((foresees_fail _).mpr ⟨_, rfl, rfl⟩) fun hhas ↦ absurd hhas h
  rw [openImage, foresees_bind, foresees_findRecord]
  refine and_congr_right fun _ ↦ forall_congr' fun record ↦ ?_
  rw [foresees_bind, foresees_rethrowing asInvalidImage_marked, wp_probeImage]
  simp only [hsize]
  constructor
  · intro h source bytes metadata hrecord
    exact h hrecord source bytes metadata
  · intro h hrecord source bytes metadata
    exact h source bytes metadata hrecord

/-- Assumes: a record that is found, and its file. The image goes through if the key of the result
is let through and the edit succeeds. -/
theorem foresees_runPipeline {source : AbsolutePath} {bytes : Bytes} {edit : ImageEdit}
    {suffix ext : String} (hrecord : recordOf env args.payload.fileId = .ok (some record))
    (hsource : resolved args.root record.storageKey = .ok source)
    (hfile : held.files source = some bytes) {post : StoredFile → Held → Prop} :
    Foresees env (runPipeline args edit suffix ext) post held ↔
      ∃ target, resolved args.root (imageKey record.storageKey suffix ext args.fresh) = .ok target ∧
        ∃ output, env.packages.edit edit bytes = .ok output ∧
          post { key := imageKey record.storageKey suffix ext args.fresh, size := output.length }
            (held.write target output) := by
  rw [runPipeline, foresees_bind, foresees_findRecord_of_found hrecord, foresees_bind,
    foresees_openStream_of_file hsource hfile, foresees_bind, foresees_updateProgress,
    foresees_bind, foresees_prepareTarget]
  refine exists_congr fun target ↦ and_congr_right fun _ ↦ ?_
  rw [foresees_bind, foresees_rewriteImage hfile]
  refine exists_congr fun output ↦ and_congr_right fun _ ↦ ?_
  rw [foresees_bind, foresees_storedAt_of_file (files_write held target output), foresees_bind,
    foresees_updateProgress, foresees_pure]

/-- Assumes: the file that is read back. -/
theorem foresees_readBack {target : AbsolutePath} {key : String} {output : Bytes}
    (htarget : resolved args.root key = .ok target) (hfile : held.files target = some output)
    {post : Metadata → Held → Prop} :
    Foresees env (readBack args key) post held ↔
      ∃ metadata, args.packages.metadata output = .ok metadata ∧ post metadata held := by
  have hanswer : env.answer (.chain (.readBack target)) held = (.ok output, held) := by
    simp only [Env.answer, Env.flow, readSource, hfile]
  rw [readBack, foresees_bind, foresees_openStream_of_file htarget hfile, foresees_bind, Foresees,
    awaitChain, wp_perform, hanswer]
  show Foresees env (Program.ofExcept ((args.packages.metadata output).mapError
    fun message ↦ .thrown (.error message))) post held ↔ _
  rw [Foresees, wp_ofExcept]
  cases args.packages.metadata output with
  | error message => simp [Program.Settles, Except.mapError, not_permanent_error]
  | ok metadata => simp [Program.Settles, Except.mapError]

/-- Assumes: after the result is stored, what is left fails once if the result can be read where it
is read back. Then the operation foresees what an image operation has to. -/
theorem foresees_image (work : ImageWork) {rest : Metadata → StoredFile → JobTask ProcessorResult}
    (hruntime : args.toRuntime = env.toRuntime)
    (hrest : ∀ metadata key target output after, resolved env.root key = .ok target →
      after.files target = some output →
        (Foresees env (rest metadata { key := key, size := output.length }) (fun _ _ ↦ True) after ↔
          (work.readsBack = true → ∃ found, env.packages.metadata output = .ok found))) :
    Foresees env (do
      let metadata ← openImage args
      updateProgress 20
      let output ← runPipeline args work.edit work.suffix (work.ext metadata)
      rest metadata output) (fun _ _ ↦ True) held ↔
        ImageForeseen env held.files args.payload.fileId work := by
  have hroot : args.root = env.root := congrArg Runtime.root hruntime
  have hfresh : args.fresh = env.fresh := congrArg Runtime.fresh hruntime
  rw [foresees_bind, foresees_openImage, ImageForeseen, hroot]
  refine and_congr_right fun _ ↦ forall₄_congr fun record source bytes metadata ↦ ?_
  refine forall₅_congr fun hrecord hsource hfile _ _ ↦ ?_
  rw [foresees_bind, foresees_updateProgress, foresees_bind,
    foresees_runPipeline hrecord (hroot ▸ hsource) hfile, hroot, hfresh]
  constructor
  · rintro ⟨target, htarget, output, hedit, hends⟩
    exact ⟨⟨target, htarget⟩, output, hedit,
      (hrest metadata _ target output _ htarget (files_write held target output)).mp hends⟩
  · rintro ⟨⟨target, htarget⟩, output, hedit, hback⟩
    exact ⟨target, htarget, output, hedit,
      (hrest metadata _ target output _ htarget (files_write held target output)).mpr hback⟩

/-- The last report of progress. -/
theorem foresees_done (result : ProcessorResult) :
    Foresees env (do
      updateProgress 100
      return result) (fun _ _ ↦ True) held := by
  rw [foresees_bind, foresees_updateProgress, foresees_pure]
  trivial

/-- The end of `convertImage` and `thumbnailImage`, which read nothing back. -/
theorem foresees_done_iff (result : ProcessorResult) {readsBack : Bool} (h : readsBack = false)
    {answer : Prop} :
    Foresees env (do
      updateProgress 100
      return result) (fun _ _ ↦ True) held ↔ (readsBack = true → answer) :=
  iff_of_true (foresees_done result) fun hback ↦ absurd (h.symm.trans hback) Bool.false_ne_true

end Image

/-! ### The processors -/

section Processors

variable {env : Env} {args : ProcessorArgs} {held : Held}

/-- Refused options are given up; the others are foreseen by the rest. -/
theorem foresees_usable {Options : Type} {name : String} {parsed : Option Options}
    {rest : Options → JobTask ProcessorResult} :
    Foresees env (usable args name parsed >>= rest) (fun _ _ ↦ True) held ↔
      ∀ options, parsed = some options → Foresees env (rest options) (fun _ _ ↦ True) held := by
  cases parsed with
  | none =>
    have hfail : usable args name none >>= rest = Processors.fail (.invalidOptions ("Invalid " ++
        name ++ " options: " ++ args.packages.firstIssue args.payload.operation
          args.payload.options)) := rfl
    rw [hfail, foresees_fail]
    exact iff_of_true ⟨_, rfl, rfl⟩ (by simp)
  | some options =>
    constructor
    · rintro h _ ⟨⟩
      exact h
    · intro h
      exact h options rfl

theorem foresees_resizeImage (hruntime : args.toRuntime = env.toRuntime) :
    Foresees env (resizeImage args) (fun _ _ ↦ True) held ↔
      ∀ options, ResizeOptionsSchema.safeParse args.payload.options = some options →
        ImageForeseen env held.files args.payload.fileId (resizeWork options) := by
  rw [resizeImage, foresees_usable]
  refine forall₂_congr fun options _ ↦ foresees_image (resizeWork options) hruntime ?_
  intro metadata key target output after htarget hfile
  have hroot : args.root = env.root := congrArg Runtime.root hruntime
  have hpackages : args.packages = env.packages := congrArg Runtime.packages hruntime
  rw [foresees_bind, foresees_readBack (hroot ▸ htarget) hfile, hpackages]
  constructor
  · rintro ⟨found, hfound, -⟩ -
    exact ⟨found, hfound⟩
  · intro h
    obtain ⟨found, hfound⟩ := h rfl
    exact ⟨found, hfound, foresees_done _⟩

theorem foresees_convertImage (hruntime : args.toRuntime = env.toRuntime) :
    Foresees env (convertImage args) (fun _ _ ↦ True) held ↔
      ∀ options, ConvertOptionsSchema.safeParse args.payload.options = some options →
        ImageForeseen env held.files args.payload.fileId (convertWork options) := by
  rw [convertImage, foresees_usable]
  exact forall₂_congr fun options _ ↦ foresees_image (convertWork options) hruntime
    fun _ _ _ _ _ _ _ ↦ foresees_done_iff _ rfl

theorem foresees_thumbnailImage (hruntime : args.toRuntime = env.toRuntime) :
    Foresees env (thumbnailImage args) (fun _ _ ↦ True) held ↔
      ∀ options, ThumbnailOptionsSchema.safeParse args.payload.options = some options →
        ImageForeseen env held.files args.payload.fileId (thumbnailWork options) := by
  rw [thumbnailImage, foresees_usable]
  exact forall₂_congr fun options _ ↦ foresees_image (thumbnailWork options) hruntime
    fun _ _ _ _ _ _ _ ↦ foresees_done_iff _ rfl

theorem wp_inspectSource {record : FileRecord} {options : Delimited Validate.ValidateOptions}
    {post : Validate.ValidationReport → Held → Prop} :
    wp env.answer (fun fault _ ↦ fault ≠ .unsettled) (inspectSource args record options) post held ↔
      ∀ source report, resolved args.root record.storageKey = .ok source →
        inspected env.packages held.files source options = .ok report → post report held := by
  rw [inspectSource, wp_bind, wp_openStream_heard]
  constructor
  · intro h source report hsource hreport
    cases hfile : held.files source with
    | none =>
      rw [inspected, readSource, hfile] at hreport
      cases hreport
    | some bytes => exact (wp_inspect hfile).mp (h source bytes hsource hfile) report hreport
  · intro h source bytes hsource hfile
    exact (wp_inspect hfile).mpr fun report ↦ h source report hsource

theorem foresees_validateCsv (hruntime : args.toRuntime = env.toRuntime) :
    Foresees env (validateCsv args) (fun _ _ ↦ True) held ↔
      ∀ options, ValidateOptionsSchema.safeParse args.payload.options = some options →
        ReportForeseen env held.files args.payload.fileId options := by
  have hroot : args.root = env.root := congrArg Runtime.root hruntime
  have hfresh : args.fresh = env.fresh := congrArg Runtime.fresh hruntime
  rw [validateCsv, foresees_usable]
  refine forall₂_congr fun options _ ↦ ?_
  rw [foresees_bind, foresees_findRecord, ReportForeseen]
  refine and_congr_right fun _ ↦ forall_congr' fun record ↦ ?_
  rw [foresees_bind, foresees_updateProgress, foresees_bind,
    foresees_rethrowing asInvalidCsv_marked, wp_inspectSource, hroot, hfresh]
  rw [imp_forall_iff]
  refine forall_congr' fun source ↦ ?_
  rw [imp_forall_iff]
  refine forall_congr' fun report ↦ forall₃_congr fun _ _ _ ↦ ?_
  rw [foresees_bind, foresees_updateProgress, foresees_bind, foresees_prepareTarget]
  refine exists_congr fun target ↦ and_iff_left ?_
  rw [foresees_bind, foresees_writeReport, foresees_bind,
    foresees_storedAt_of_file (files_write held target _)]
  exact foresees_done _

/-- The rewriting of a CSV never fails unheard. -/
theorem wp_rewriteSource {record : FileRecord} {options : Delimited Transform.TransformOptions}
    {post : Transform.ReshapeState × StoredFile → Held → Prop}
    (hpost : ∀ result after, post result after) :
    wp env.answer (fun fault _ ↦ fault ≠ .unsettled) (rewriteSource args record options) post
      held := by
  rw [rewriteSource, wp_bind, wp_openStream_heard]
  intro source bytes _ hfile
  rw [wp_bind, wp_prepareTarget]
  refine ⟨fun _ _ ↦ Fault.noConfusion, fun target _ ↦ ?_⟩
  rw [wp_bind, awaitChain, wp_perform]
  cases hreshaped : reshaped env.packages held.files source options with
  | error fault =>
    have hanswer : env.answer (.chain (.rewriteCsv source options target)) held =
        (.error fault, held.leave (.chain (.rewriteCsv source options target)) env.leaves) := by
      simp only [Env.answer, Env.flow, hreshaped]
    rw [hanswer, settles_error]
    exact reshaped_of_file hfile hreshaped
  | ok result =>
    have hanswer : env.answer (.chain (.rewriteCsv source options target)) held =
        (.ok result.1, held.write target result.2) := by
      simp only [Env.answer, Env.flow, hreshaped]
    rw [hanswer, settles_ok, wp_bind, wp_storedAt_of_file (files_write held target _), wp_pure]
    exact hpost _ _

theorem foresees_transformCsv :
    Foresees env (transformCsv args) (fun _ _ ↦ True) held ↔
      ∀ options, TransformOptionsSchema.safeParse args.payload.options = some options →
        RecordIsJson env args.payload.fileId := by
  rw [transformCsv, foresees_usable]
  refine forall₂_congr fun options _ ↦ ?_
  rw [foresees_bind, foresees_findRecord]
  refine and_iff_left ?_
  intro record _
  rw [foresees_bind, foresees_updateProgress, foresees_bind,
    foresees_rethrowing asInvalidCsv_marked]
  refine wp_rewriteSource fun result after ↦ ?_
  exact foresees_done _

/-- A processor fails once exactly when it foresees its failures. -/
theorem foresees_processors {payload : JobPayload} {files : AbsolutePath → Option Bytes} :
    Foresees env (processors payload.operation { env.toRuntime with payload := payload })
        (fun _ _ ↦ True) { files := files } ↔ Foreseen env files payload := by
  obtain ⟨fileId, operation, options⟩ := payload
  cases operation with
  | imageResize => exact foresees_resizeImage rfl
  | imageConvert => exact foresees_convertImage rfl
  | imageThumbnail => exact foresees_thumbnailImage rfl
  | csvValidate => exact foresees_validateCsv rfl
  | csvTransform => exact foresees_transformCsv

end Processors

/-! ### The job -/

/-- A failed attempt is the last one for every job whose payload parses and whose processor foresees
what goes wrong, and only for these. -/
theorem failsOnce_iff (env : Env) (data : Json) (files : AbsolutePath → Option Bytes) :
    FailsOnce (attempt env data files) ↔
      ∃ payload, JobPayloadSchema.safeParse data = some payload ∧ Foreseen env files payload := by
  rw [failsOnce_attempt_iff, runJob]
  cases hpayload : JobPayloadSchema.safeParse data with
  | none =>
    rw [foresees_fail]
    exact iff_of_false (not_permanent_error _) (by simp)
  | some payload =>
    rw [foresees_processors]
    constructor
    · intro h
      exact ⟨payload, rfl, h⟩
    · rintro ⟨_, ⟨⟩, h⟩
      exact h

/-- The header of the picture can be read, and its last byte cannot. -/
example : attempt (gallery (some picture.toJson) (.error "premature end of JPEG image"))
    thumbnailJob galleryFiles = .error (.thrown (.error "premature end of JPEG image")) := rfl

/-- A payload that no processor can take is tried again. -/
theorem not_failsOnce_malformed :
    ¬ ∀ (env : Env) (data : Json) (files : AbsolutePath → Option Bytes),
      FailsOnce (attempt env data files) := by
  intro h
  have houtcome : attempt (gallery none (.ok []))
      (.object [("fileId", .string "a"), ("operation", .string "image.rotate")]) galleryFiles =
        .error (.thrown (.error "Malformed job payload: Invalid input")) := rfl
  obtain ⟨error, herror, hfinal⟩ := h _ _ _ _ houtcome
  obtain rfl := Fault.thrown.inj herror
  cases hfinal

end FileForge.Jobs.HopelessJobs
