import FileForge.Files.MimeTypes
import FileForge.Files.UploadReads
import FileForge.Frontend.Api

/-!
# Uploading a file

`uploadFile` of `frontend/src/api.ts` and what answers it: the middleware with its filter, the
handler of `POST /uploads`, and `uploadErrorHandler` of `src/files/routes.ts`, before the error
handler of the application.

`uploadFile_comes_back` is about every request and everything that can become of the calls to the
disk and to Redis: the page is told of an upload that is stored and recorded as it is told, or of the
error that the server found.
-/

set_option autoImplicit false
set_option relaxedAutoImplicit false

namespace FileForge.Frontend.Uploading

open Foundation.JsonValue Foundation.JsonReader Foundation.Interaction
open Foundation.PosixPath (AbsolutePath)
open Foundation.FileTree (Bytes NodeError)
open Foundation.FileWrites (content)
open Storage.LocalStorage Storage.Atomicity
open Api.Answers (internalError reports_problem)
open Files.Repository Files.Upload Files.UploadAtomicity Files.MimeTypes Files.UploadReads
open Frontend.Api

/-! ### The answers -/

/-- What is thrown before the handler or passed on by it. -/
inductive UploadError
  /-- `UnsupportedFileTypeError` -/
  | unsupportedType (message : String)
  /-- `multer.MulterError` -/
  | multer (code message : String)
  | other (message : String)

/-- `uploadErrorHandler`, and the error handler of the application behind it. -/
def uploadErrorHandler (production : Bool) : UploadError → Api.Answers.Answer
  | .unsupportedType message => .problem 415 "unsupported_type" message
  | .multer code message =>
    if code = "LIMIT_FILE_SIZE" then
      .problem 413 "file_too_large" "The uploaded file exceeds the maximum allowed size"
    else .problem 400 "upload_error" message
  | .other message => internalError production message

/-- How `multer` gets through the form. -/
inductive Received
  /-- There is no file in the field `file`. -/
  | nothing
  /-- A file, and where it is staged if the filter takes it. -/
  | part (path : AbsolutePath) (mimetype originalname : String)
  /-- A limit is exceeded, or the form is not as `multer` wants it. -/
  | refused (code message : String)
  /-- The disk or the connection has failed. -/
  | broken (message : String)

/-- `upload.single('file')` -/
def middleware (toLowerCase : String → String) : Received → Except UploadError (Option StagedFile)
  | .nothing => .ok none
  | .part path mimetype originalname =>
    match fileFilter toLowerCase mimetype originalname with
    | .error message => .error (.unsupportedType message)
    | .ok resolved =>
      .ok (some { path := path, originalname := originalname, mimetype := resolved })
  | .refused code message => .error (.multer code message)
  | .broken message => .error (.other message)

/-- What the handler has ended with. -/
def uploadAnswer (production : Bool) (wording : NodeError → String) :
    Except NodeError Answer → Api.Answers.Answer
  | .ok .noFile => .problem 400 "no_file" "Expected a file in the \"file\" field"
  | .ok (.created body) => { status := 201, body := createdJson body }
  | .ok (.passedOn error) | .error error => uploadErrorHandler production (.other (wording error))

/-- The answer to `POST /uploads`, and what it leaves. -/
def exchange (deps : Deps) (production : Bool) (wording : NodeError → String) (runtime : Runtime)
    (machine : Machine) (received : Received) (state : State) : Api.Answers.Answer × State :=
  match middleware runtime.toLowerCase received with
  | .error error => (uploadErrorHandler production error, state)
  | .ok file =>
    let ended := Program.run machine.world (postUpload deps runtime file) 0 state
    (uploadAnswer production wording ended.outcome, ended.state)

/-! ### What the handler does -/

section Handled

variable {deps : Deps} {runtime : Runtime} {file : StagedFile} {staged : Bytes}
  {machine : Machine} {state : State}

/-- The record of a file that is stored. -/
def recordFor (runtime : Runtime) (file : StagedFile) (staged : Bytes) : FileRecord :=
  recordOf runtime file { key := keyOf runtime file, size := staged.length }

/-- The upload has been carried out. -/
def Stored (deps : Deps) (machine : Machine) (before : State) (record : FileRecord)
    (staged : Bytes) (after : State) : Prop :=
  bytesAt deps.root after.tree record.storageKey = some staged ∧
    ∃ calls, machine.server calls = .completes ∧
      after.records = save before.records (machine.now calls) record

/-- Nothing is recorded, or the answer to the save was lost. -/
def Unrecorded (machine : Machine) (before after : State) : Prop :=
  after.records = before.records ∨ ∃ record calls code, machine.server calls = .fails code true ∧
    after.records = save before.records (machine.now calls) record

/-- The `catch` block answers with the error, and leaves Redis alone. -/
theorem run_abandon_eq (machine : Machine) (file : StagedFile) (fault : NodeError) (calls : ℕ)
    (before : State) :
    ∃ calls' tree, Program.run machine.world (abandon file fault) calls before =
      ⟨.ok (.passedOn fault), calls', { before with tree := tree }⟩ := by
  rw [abandon, Program.run_bind, Program.run_handle, run_onDisk]
  generalize Program.run (world machine.fate machine.clock) _ calls before.tree = ended
  obtain ⟨outcome, calls', tree⟩ := ended
  cases outcome with
  | ok done => exact ⟨_, tree, rfl⟩
  | error failure => exact ⟨_, tree, rfl⟩

/-- Assumes: the file was staged. The handler stores and records it, or passes an error on. -/
theorem handled_cases (hstaged : content state.tree file.path = some (some staged)) :
    ((handled deps runtime file machine state).outcome =
        .ok (.created (createdFrom (recordFor runtime file staged))) ∧
      Stored deps machine state (recordFor runtime file staged) staged
        (handled deps runtime file machine state).state) ∨
    ∃ fault, (handled deps runtime file machine state).outcome = .ok (.passedOn fault) ∧
      Unrecorded machine state (handled deps runtime file machine state).state := by
  cases hkey : pathFor deps.root (keyOf runtime file) with
  | error fault =>
    have hadopt : adopt deps.root (keyOf runtime file) file.path = throw fault := by
      rw [adopt, hkey]
      rfl
    obtain ⟨calls, tree, hrun⟩ := run_abandon_eq machine file fault 0 state
    rw [handled_of_rejects (by rw [hadopt, run_onDisk, Program.run_throw]), hrun]
    exact .inr ⟨fault, rfl, .inl rfl⟩
  | ok target =>
    obtain ⟨outcome, tree, hends, hrun⟩ :=
      @run_onDisk_adopt deps _ file machine state target staged hkey hstaged
    by_cases hpoint : (adoptPoint machine.fate state.tree file.path staged target).1 = .stored
    · have houtcome := hends.outcome
      have hholds := hends.holds
      rw [hpoint] at houtcome hholds
      obtain rfl := houtcome
      rw [handled_of_resolves hrun]
      cases hserver : machine.server
          (adoptPoint machine.fate state.tree file.path staged target).2 with
      | completes =>
        obtain ⟨calls, counters, hrecord⟩ := run_record_of_completes deps
          (recordFor runtime file staged) { state with tree := tree } hserver
        change Program.run machine.world (recordUpload deps (recordOf runtime file _)) _ _ = _
          at hrecord
        rw [recordFor] at hrecord
        rw [hrecord]
        refine .inl ⟨rfl, ?_, _, hserver, rfl⟩
        show bytesAt deps.root tree (keyOf runtime file) = _
        have htarget : content tree target = some (some staged) := by
          rw [show content tree = _ from hholds, Point.leaves, Function.update_self]
        rw [bytesAt_of_ok hkey, htarget]
        rfl
      | fails code applied =>
        rw [run_record_of_fails deps _ _ hserver, Program.Ended.handle_error]
        obtain ⟨calls, final, habandon⟩ := run_abandon_eq machine file (.system code)
          ((adoptPoint machine.fate state.tree file.path staged target).2 + 1)
          { state with
            tree := tree
            records := if applied then save state.records
                (machine.now (adoptPoint machine.fate state.tree file.path staged target).2)
                (recordFor runtime file staged)
              else state.records }
        rw [recordFor] at habandon
        rw [habandon]
        refine .inr ⟨_, rfl, ?_⟩
        cases applied with
        | true => exact .inr ⟨_, _, code, hserver, rfl⟩
        | false => exact .inl rfl
    · obtain ⟨fault, rfl⟩ := hends.rejects hpoint
      obtain ⟨calls, final, habandon⟩ := run_abandon_eq machine file fault
        (adoptPoint machine.fate state.tree file.path staged target).2 { state with tree := tree }
      rw [handled_of_rejects hrun, habandon]
      exact .inr ⟨fault, rfl, .inl rfl⟩

end Handled

/-! ### What the page is told -/

theorem reports_uploadErrorHandler (production : Bool) (error : UploadError) :
    ∃ problem, (uploadErrorHandler production error).Reports problem := by
  cases error with
  | unsupportedType message => exact ⟨_, reports_problem (by decide) _ _⟩
  | multer code message =>
    rw [uploadErrorHandler]
    split_ifs
    · exact ⟨_, reports_problem (by decide) _ _⟩
    · exact ⟨_, reports_problem (by decide) _ _⟩
  | other message => exact ⟨_, reports_problem (by decide) _ _⟩

/-- The reply that a record makes. -/
def replyOf (record : FileRecord) : UploadReply where
  id := record.id
  originalName := record.originalName
  mimeType := record.mimeType
  size := record.size
  uploadedAt := record.uploadedAt

theorem uploadFile_created {record : FileRecord} (hsize : record.size ≤ maxSafeInteger) :
    uploadFile (some (sent { status := 201, body := createdJson (createdFrom record) })) =
      .ok (replyOf record) := by
  have hnames : ["id", "originalName", "mimeType", "size", "uploadedAt"].Nodup := by decide
  have hok : (sent { status := 201, body := createdJson (createdFrom record) }).Ok := by
    show 200 ≤ 201 ∧ 201 ≤ 299
    decide
  have hnumber : Foundation.Binary64.Representable ((record.size : ℕ) : ℚ) := by
    have hbound : record.size ≤ 2 ^ 53 := Nat.le_trans hsize (by decide)
    have hint := Foundation.Binary64.representable_intCast (n := record.size)
      (by rw [Nat.abs_cast]; exact_mod_cast hbound)
    rwa [Int.cast_natCast] at hint
  refine fetched_of_ok _ hok (.object hnames ?_) rfl
  simp only [List.forall_mem_cons, List.not_mem_nil, false_imp_iff, implies_true, and_true]
  exact ⟨.string _, .string _, .string _, .number hnumber, .string _⟩

/-- What `uploadFile` comes to, and what it leaves. -/
def runUploadFile (deps : Deps) (production : Bool) (wording : NodeError → String)
    (runtime : Runtime) (machine : Machine) (received : Received) (state : State) :
    Except ClientError UploadReply × State :=
  let exchanged := exchange deps production wording runtime machine received state
  (uploadFile (some (sent exchanged.1)), exchanged.2)

/-- The page is told of the error that the server answers with, and nothing is recorded that Redis
has answered for. -/
def Refused (machine : Machine) (before : State) (answer : Api.Answers.Answer)
    (came : Except ClientError UploadReply × State) : Prop :=
  RejectedBy (sent answer) came.1 ∧ Unrecorded machine before came.2

section Runs

variable {deps : Deps} {production : Bool} {wording : NodeError → String} {runtime : Runtime}
  {machine : Machine} {received : Received} {state after : State}

theorem runUploadFile_eq {answer : Api.Answers.Answer}
    (h : exchange deps production wording runtime machine received state = (answer, after)) :
    runUploadFile deps production wording runtime machine received state =
      (uploadFile (some (sent answer)), after) := by
  rw [runUploadFile, h]

/-- A failing answer. -/
theorem refused_of_reports {answer : Api.Answers.Answer}
    (h : exchange deps production wording runtime machine received state = (answer, after))
    (hanswer : ∃ problem, answer.Reports problem) (hafter : Unrecorded machine state after) :
    Refused machine state
      (exchange deps production wording runtime machine received state).1
      (runUploadFile deps production wording runtime machine received state) := by
  rw [runUploadFile_eq h, h]
  exact ⟨rejectedBy_of_reports UploadResponseSchema.safeParse hanswer, hafter⟩

theorem exchange_of_resolved {file : StagedFile} {mimetype : String}
    (h : resolveMimeType runtime.toLowerCase mimetype file.originalname = some file.mimetype) :
    exchange deps production wording runtime machine
        (.part file.path mimetype file.originalname) state =
      (uploadAnswer production wording (handled deps runtime file machine state).outcome,
        (handled deps runtime file machine state).state) := by
  have hparsed : middleware runtime.toLowerCase (.part file.path mimetype file.originalname) =
      .ok (some file) := by
    rw [middleware, fileFilter, h]
  rw [exchange, hparsed]
  rfl

end Runs

/-- A call of `uploadFile` comes back with an upload or with what the server said: the status of its
response, and the message and the code in it. With an upload,
the form had a file of a type that is taken, its bytes are in storage, and Redis has the record that
the page was told of. Without one, nothing was recorded, unless Redis carried the save out and its
answer was lost. Assumes: a file of the form was staged, and its size is a safe integer. -/
theorem uploadFile_comes_back (deps : Deps) (production : Bool) (wording : NodeError → String)
    (runtime : Runtime) (machine : Machine) (received : Received) (state : State)
    (hstaged : ∀ path mimetype originalname, received = .part path mimetype originalname →
      ∃ staged, content state.tree path = some (some staged) ∧ staged.length ≤ maxSafeInteger) :
    (∃ file staged mimetype, received = .part file.path mimetype file.originalname ∧
      resolveMimeType runtime.toLowerCase mimetype file.originalname = some file.mimetype ∧
      content state.tree file.path = some (some staged) ∧
      (runUploadFile deps production wording runtime machine received state).1 =
        .ok (replyOf (recordFor runtime file staged)) ∧
      Stored deps machine state (recordFor runtime file staged) staged
        (runUploadFile deps production wording runtime machine received state).2) ∨
    Refused machine state
      (exchange deps production wording runtime machine received state).1
      (runUploadFile deps production wording runtime machine received state) := by
  cases received with
  | nothing => exact .inr (refused_of_reports rfl ⟨_, reports_problem (by decide) _ _⟩ (.inl rfl))
  | refused code message =>
    exact .inr (refused_of_reports rfl (reports_uploadErrorHandler production _) (.inl rfl))
  | broken message =>
    exact .inr (refused_of_reports rfl (reports_uploadErrorHandler production _) (.inl rfl))
  | part path mimetype originalname =>
    obtain ⟨staged, hcontent, hsize⟩ := hstaged path mimetype originalname rfl
    cases hresolved : resolveMimeType runtime.toLowerCase mimetype originalname with
    | none =>
      have hparsed : middleware runtime.toLowerCase (.part path mimetype originalname) =
          .error (.unsupportedType ("Unsupported file type: " ++ mimetype)) := by
        rw [middleware, fileFilter, hresolved]
      have hexchange : exchange deps production wording runtime machine
          (.part path mimetype originalname) state = (uploadErrorHandler production
            (.unsupportedType ("Unsupported file type: " ++ mimetype)), state) := by
        rw [exchange, hparsed]
      exact .inr (refused_of_reports hexchange (reports_uploadErrorHandler production _)
        (.inl rfl))
    | some resolved =>
      obtain ⟨file, rfl, rfl, rfl⟩ : ∃ file : StagedFile, file.path = path ∧
          file.originalname = originalname ∧ file.mimetype = resolved :=
        ⟨{ path := path, originalname := originalname, mimetype := resolved }, rfl, rfl, rfl⟩
      have hexchange := @exchange_of_resolved deps production wording runtime machine state file
        mimetype hresolved
      rcases @handled_cases deps runtime file staged machine state hcontent with
        ⟨houtcome, hstored⟩ | ⟨fault, houtcome, hunrecorded⟩
      · rw [houtcome] at hexchange
        rw [runUploadFile_eq hexchange]
        refine .inl ⟨file, staged, mimetype, rfl, hresolved, hcontent, uploadFile_created hsize, ?_⟩
        dsimp only
        exact hstored
      · rw [houtcome] at hexchange
        exact .inr (refused_of_reports hexchange (reports_uploadErrorHandler production _)
          hunrecorded)

/-- A CSV file that its browser calls a stream of bytes. -/
def csvPart : Received := .part stagedPath "application/octet-stream" "a.csv"

theorem uploadFile_comes_back_csv :
    ∃ file staged mimetype, csvPart = .part file.path mimetype file.originalname ∧
      (runUploadFile csvDeps true (fun _ ↦ "") csvRuntime {} csvPart beforeUpload).1 =
        .ok (replyOf (recordFor csvRuntime file staged)) := by
  have hstaged : ∀ path mimetype originalname, csvPart = .part path mimetype originalname →
      ∃ staged, content beforeUpload.tree path = some (some staged) ∧
        staged.length ≤ maxSafeInteger := by
    intro path mimetype originalname hpart
    obtain ⟨rfl, -, -⟩ := Received.part.inj hpart
    exact ⟨[1, 2], by decide, by decide⟩
  have hok : (runUploadFile csvDeps true (fun _ ↦ "") csvRuntime {} csvPart
      beforeUpload).1.isOk = true := by
    decide +kernel
  rcases uploadFile_comes_back csvDeps true (fun _ ↦ "") csvRuntime {} csvPart beforeUpload
    hstaged with ⟨file, staged, mimetype, hpart, -, -, hreply, -⟩ | ⟨⟨problem, -, -, h⟩, -⟩
  · exact ⟨file, staged, mimetype, hpart, hreply⟩
  · rw [h] at hok
    cases hok

end FileForge.Frontend.Uploading
