import FileForge.Files.Repository
import FileForge.Foundation.EcmaText
import FileForge.Storage.LocalStorage

/-!
# Uploads

`src/files/upload.ts` and the `POST /uploads` handler of `src/files/routes.ts`, for a request that
the upload middleware has let through. The handler calls two services: the file system, through
`LocalStorage.adopt` and the removal of the staged file, and Redis, through the repository of
records and the counters (`Call`). A call to Redis that fails may have been carried out before its
answer was lost (`ServerFate`).

Fresh identifiers, the clock's text and `toLowerCase`, of which no result here depends, come from a
`Runtime`.
-/

set_option autoImplicit false
set_option relaxedAutoImplicit false

namespace FileForge.Files.Upload

open Foundation.Interaction Foundation.PosixPath Foundation.FileTree Foundation.EcmaText
open Storage Repository

/-! ### Names -/

/-- The characters that `.` does not match in a regular expression. -/
def isLineTerminator (c : Char) : Bool :=
  c = '\n' || c = '\r' || c = '\u2028' || c = '\u2029'

/-- `/` or a backslash. -/
def isSeparator (c : Char) : Bool := c = '/' || c.toNat = 0x5C

/-- `replace(/^.*[\\/]/, '')`: the first line loses everything up to its last separator. -/
def withoutPath (name : List Char) : List Char :=
  ((name.takeWhile fun c ↦ !isLineTerminator c).reverse.takeWhile fun c ↦ !isSeparator c).reverse ++
    name.dropWhile fun c ↦ !isLineTerminator c

/-- `[\u0000-\u001f\u007f]`. -/
def isControl (c : Char) : Bool := c.toNat ≤ 0x1F || c.toNat = 0x7F

/-- `[<>:"|?*]`. -/
def isReserved (c : Char) : Bool := ['<', '>', ':', '"', '|', '?', '*'].contains c

/-- A name without its path, control characters and reserved characters. -/
def cleaned (name : List Char) : List Char :=
  trimChars (((withoutPath name).filter fun c ↦ !isControl c).map fun c ↦
    if isReserved c then '_' else c)

/-- `sanitizeFilename`. -/
def sanitizeFilename (name : String) : String :=
  let safe := if cleaned name.toList = [] then "unnamed".toList else cleaned name.toList
  String.ofList (if 255 < unitLength safe then sliceStart 255 safe else safe)

/-- A cleaned name has no control characters and no reserved ones. -/
theorem mem_cleaned {name : List Char} {c : Char} (h : c ∈ cleaned name) :
    isControl c = false ∧ isReserved c = false := by
  obtain ⟨original, hkept, hc⟩ := List.mem_map.mp (mem_of_mem_trimChars h)
  have hcontrol : isControl original = false := by
    simpa using (List.mem_filter.mp hkept).2
  by_cases hreserved : isReserved original = true
  · rw [if_pos hreserved] at hc
    rw [← hc]
    decide
  · rw [if_neg hreserved] at hc
    rw [← hc]
    exact ⟨hcontrol, Bool.eq_false_iff.mpr hreserved⟩

/-- Nor has the name that is kept of an upload. -/
theorem mem_sanitizeFilename {name : String} {c : Char} (h : c ∈ (sanitizeFilename name).toList) :
    isControl c = false ∧ isReserved c = false := by
  have hsafe : ∀ d ∈ if cleaned name.toList = [] then "unnamed".toList else cleaned name.toList,
      isControl d = false ∧ isReserved d = false := by
    split_ifs with hempty
    · exact forall_mem_of_all (by decide)
    · exact fun d hd ↦ mem_cleaned hd
  simp only [sanitizeFilename, String.toList_ofList] at h
  generalize (if cleaned name.toList = [] then "unnamed".toList else cleaned name.toList) = safe
    at h hsafe
  split_ifs at h with hlong
  · rcases mem_sliceStart h with hmem | rfl
    · exact hsafe c hmem
    · decide
  · exact hsafe c h

/-- The last component of a path, slashes at its end left out. -/
def lastPart (path : List Char) : List Char :=
  ((path.reverse.dropWhile (· = '/')).takeWhile (· ≠ '/')).reverse

/-- `extname` of `node:path`: the last dot of the last component and what follows it. A component
that begins with its last dot has no extension, and `..` has none. -/
def extname (path : String) : String :=
  let part := lastPart path.toList
  if part = "..".toList ∨ '.' ∉ part ∨ (part.reverse.dropWhile (· ≠ '.')).length ≤ 1 then ""
  else String.ofList ('.' :: (part.reverse.takeWhile (· ≠ '.')).reverse)

/-- What the handler takes from the runtime: two fresh identifiers, the text of the moment, and
`toLowerCase`. -/
structure Runtime where
  keyId : String
  recordId : String
  now : String
  toLowerCase : String → String

/-- `storageKeyFor`. -/
def storageKeyFor (runtime : Runtime) (originalName : String) : String :=
  "uploads/" ++ runtime.keyId ++
    String.ofList (sliceStart 10 (runtime.toLowerCase (extname originalName)).toList)

/-! ### The handler -/

/-- `req.file`, as the middleware leaves it. -/
structure StagedFile where
  path : AbsolutePath
  originalname : String
  mimetype : String

inductive Call
  | disk (request : Foundation.FileTree.Call)
  /-- `SET` with `EX`, in `FileRepository.save`. -/
  | set (record : FileRecord)
  /-- `INCRBY`, in `incrementCounter`. -/
  | incrby (counter : String) (amount : ℕ)

abbrev Reply : Call → Type
  | .disk request => Foundation.FileTree.Reply request
  | _ => Unit

abbrev Handler := Program Call Reply NodeError

/-- A program of the storage layer inside the handler. -/
def onDisk {Result : Type} (program : Fs Result) : Handler Result :=
  program.within Call.disk fun _ reply ↦ reply

/-- `UploadRouterDeps`: the root of storage, and whether counters are kept. -/
structure Deps where
  root : AbsolutePath
  countsUploads : Bool

/-- `FileRepository.save`. -/
def saveRecord (record : FileRecord) : Handler Unit := Program.perform (Call.set record)

/-- `incrementCounter`: a failure is swallowed. -/
def incrementCounter (deps : Deps) (counter : String) (amount : ℕ) : Handler Unit :=
  if deps.countsUploads then
    tryCatch (Program.perform (Call.incrby counter amount)) fun _ ↦ return ()
  else return ()

/-- The body of the answer 201: the record without its key. -/
structure Created where
  id : String
  originalName : String
  mimeType : String
  size : ℕ
  uploadedAt : String
  deriving DecidableEq, Repr

def createdFrom (record : FileRecord) : Created :=
  { id := record.id, originalName := record.originalName, mimeType := record.mimeType
    size := record.size, uploadedAt := record.uploadedAt }

/-- How the handler answers. -/
inductive Answer
  /-- 400 `no_file`. -/
  | noFile
  /-- 201. -/
  | created (body : Created)
  /-- `next(error)`. -/
  | passedOn (error : NodeError)
  deriving DecidableEq

/-- The record of a stored upload. -/
def recordOf (runtime : Runtime) (file : StagedFile) (stored : LocalStorage.StoredFile) :
    FileRecord :=
  { id := runtime.recordId, storageKey := stored.key
    originalName := sanitizeFilename file.originalname, mimeType := file.mimetype
    size := stored.size, uploadedAt := runtime.now }

/-- The `try` block. -/
def commit (deps : Deps) (runtime : Runtime) (file : StagedFile) : Handler Answer := do
  let originalName := sanitizeFilename file.originalname
  let storageKey := storageKeyFor runtime originalName
  let stored ← onDisk (LocalStorage.adopt deps.root storageKey file.path)
  let record := recordOf runtime file stored
  saveRecord record
  incrementCounter deps "uploads_total" 1
  incrementCounter deps "bytes_uploaded_total" record.size
  return .created (createdFrom record)

/-- The `catch` block. -/
def abandon (file : StagedFile) (error : NodeError) : Handler Answer := do
  tryCatch (onDisk (rm file.path)) fun _ ↦ return ()
  return .passedOn error

/-- The handler of `POST /uploads`. -/
def postUpload (deps : Deps) (runtime : Runtime) (file : Option StagedFile) : Handler Answer :=
  match file with
  | none => return .noFile
  | some file => tryCatch (commit deps runtime file) (abandon file)

/-! ### The services -/

/-- What becomes of a call to Redis: it completes, or it fails, carried out or not. -/
inductive ServerFate
  | completes
  | fails (code : ErrorCode) (applied : Bool)
  deriving DecidableEq

/-- The two services. -/
structure State where
  tree : Tree
  records : Records
  counters : String → ℕ

/-- A command of Redis. -/
def serverAnswer (fate : ServerFate) (effect : State → State) (state : State) :
    Except NodeError Unit × State :=
  match fate with
  | .completes => (.ok (), effect state)
  | .fails code applied => (.error (.system code), if applied then effect state else state)

/-- What becomes of the calls, and the clocks of the disk and of Redis. -/
structure Machine where
  fate : ℕ → Fate := fun _ ↦ .completes
  server : ℕ → ServerFate := fun _ ↦ .completes
  clock : ℕ → ℚ := fun _ ↦ 0
  now : ℕ → ℕ := fun _ ↦ 0

def Machine.world (machine : Machine) : Program.World Call Reply NodeError State :=
  fun calls request state ↦ match request with
    | .disk request =>
      let answered := answer (machine.fate calls) (machine.clock calls) request state.tree
      (answered.1, { state with tree := answered.2 })
    | .set record => serverAnswer (machine.server calls) (fun state ↦
        { state with records := Repository.save state.records (machine.now calls) record }) state
    | .incrby counter amount => serverAnswer (machine.server calls) (fun state ↦
        { state with
          counters := Function.update state.counters counter (state.counters counter + amount) })
        state

end FileForge.Files.Upload
