import FileForge.Files.Signing
import FileForge.Storage.LocalStorage

/-!
# Downloads

`GET /files/*splat` of `src/files/download.ts` as a program over the file system, beside a sweep
that may remove regular files before each of its calls. A rejected handler is answered by the error
handler of the application. The read stream is handed over before it has opened its file: when it
opens, nobody listens for its error, and an error without a listener ends the process
(`Exchange.unhandled`).

The handler looks at the path four times: in `exists`, in `size`, in `open`, and when the stream
opens. `downloadSafe_iff` says when a run is what a client may expect: a request that gets as far as
storage has to find nothing at the first look, or a regular file at the last one under a name that
may stand in a header. A directory is a key too, and its download ends the process
(`not_downloadSafe_directory`).
-/

set_option autoImplicit false
set_option relaxedAutoImplicit false

namespace FileForge.Files.Download

open Foundation.Interaction Foundation.PosixPath Foundation.FileTree Foundation.QueryString
open Storage.LocalStorage Signing

/-! ### The handler -/

/-- `CONTENT_TYPES`. -/
def contentTypes : List (String × String) := [
  (".jpg", "image/jpeg"),
  (".jpeg", "image/jpeg"),
  (".png", "image/png"),
  (".webp", "image/webp"),
  (".avif", "image/avif"),
  (".gif", "image/gif"),
  (".tiff", "image/tiff"),
  (".csv", "text/csv"),
  (".json", "application/json"),
  (".txt", "text/plain")]

/-- The last dot of a key and what follows it, in lower case, empty without a dot. Only ASCII
letters matter: no other letter has a lower case that stands in `contentTypes`. -/
def extensionOf (key : String) : String :=
  if '.' ∈ key.toList then
    String.ofList ('.' :: ((key.toList.reverse.takeWhile (· ≠ '.')).reverse.map Char.toLower))
  else ""

def contentTypeFor (key : String) : String :=
  (contentTypes.lookup (extensionOf key)).getD "application/octet-stream"

/-- The characters that Node admits in the value of a header. -/
def isHeaderChar (c : Char) : Bool :=
  c = '\t' || (0x20 ≤ c.toNat && c.toNat ≤ 0x7E) || (0x80 ≤ c.toNat && c.toNat ≤ 0xFF)

def contentDisposition (key : String) : String := "inline; filename=\"" ++ basename key ++ "\""

/-- What is sent to the client. -/
inductive Response
  /-- `res.status(status).json({ error, message })` -/
  | problem (status : ℕ) (error message : String)
  /-- The answer of the application's error handler, with `internal_error` and, outside production,
  the message of the fault. -/
  | internalError (fault : NodeError)
  | file (contentType : String) (contentLength : ℕ) (contentDisposition : String) (body : Bytes)
  deriving DecidableEq

def Response.status : Response → ℕ
  | .problem status _ _ => status
  | .internalError _ => 500
  | .file _ _ _ _ => 200

/-- How a request ends: its response, and an error event without a listener. -/
structure Exchange where
  response : Option Response
  unhandled : Option NodeError := none
  deriving DecidableEq

/-- A request that ends with its response. -/
def Exchange.answered (response : Response) : Exchange := { response := some response }

/-- `req.params.splat`. -/
inductive Splat
  | absent
  | text (raw : String)
  | segments (raw : List String)

/-- The key a request names. -/
def Splat.key : Splat → String
  | .absent => ""
  | .text raw => raw
  | .segments raw => "/".intercalate raw

structure Request where
  splat : Splat
  query : Query

/-- `DownloadRouterDeps`, of the storage its root. -/
structure Deps where
  root : AbsolutePath
  /-- Empty disables signing. -/
  downloadSecret : String

def noKey : Response := .problem 400 "no_key" "Specify a file key"

def notFound : Response := .problem 404 "not_found" "No such file"

/-- The answer to a link that is not accepted. -/
def refusal : Reason → Response
  | .expired => .problem 410 "link_expired" "This download link has expired"
  | _ => .problem 403 "invalid_signature" "This download link is not valid"

/-- The signature gate. -/
def signatureGate (hmac : Hmac) (deps : Deps) (now : ClockReading) (request : Request) :
    Option Response :=
  if deps.downloadSecret = "" then none
  else
    match verifySignedLink hmac request.splat.key (request.query.text "expires")
      (request.query.text "signature") deps.downloadSecret now with
    | .ok => none
    | .refused reason => some (refusal reason)

/-- What is answered before storage is asked. -/
def answeredEarly (hmac : Hmac) (deps : Deps) (now : ClockReading) (request : Request) :
    Option Response :=
  if request.splat.key = "" then some noKey else signatureGate hmac deps now request

/-- `res.setHeader` of a name that may not stand in a header. -/
def invalidHeader : NodeError :=
  .thrown "Invalid character in header content [\"Content-Disposition\"]"

/-- The headers are set and the stream is piped. It opens its file after that, whether or not a
header was refused. -/
def deliver (key : String) (size : ℕ) (stream : ReadStream) : Fs Exchange :=
  if (contentDisposition key).toList.all isHeaderChar then
    tryCatch (do
      let bytes ← openRead stream.path
      return .answered (.file (contentTypeFor key) size (contentDisposition key) bytes))
      fun fault ↦ return { response := none, unhandled := some fault }
  else
    tryCatch (do
      let _ ← openRead stream.path
      return .answered (.internalError invalidHeader))
      fun fault ↦ return {
        response := some (.internalError invalidHeader), unhandled := some fault }

/-- The part of the handler that asks storage. -/
def serve (root : AbsolutePath) (key : String) : Fs Exchange := do
  let found ← tryCatch (existsStored root key) fun _ ↦ return false
  if found then
    tryCatch (do
      let size ← size root key
      let stream ← openStored root key
      deliver key size stream)
      fun fault ↦ return .answered (.internalError fault)
  else return .answered notFound

/-- `GET /files/*splat`. -/
def getFile (hmac : Hmac) (deps : Deps) (now : ClockReading) (request : Request) : Fs Exchange :=
  match answeredEarly hmac deps now request with
  | some response => return .answered response
  | none => serve deps.root request.splat.key

/-! ### Beside a sweep -/

/-- Calls that complete, and before each of them the regular files that a sweep removes. -/
def sweeping (deletions : ℕ → List AbsolutePath) : Machine :=
  { others := fun calls ↦ removeFiles (deletions calls) }

/-- What a sweep leaves before a call. -/
def sweptTree (deletions : ℕ → List AbsolutePath) (tree : Tree) : ℕ → Tree
  | 0 => tree
  | calls + 1 => removeFiles (deletions calls) (sweptTree deletions tree calls)

/-- How a request ends. -/
def exchange (hmac : Hmac) (deps : Deps) (now : ClockReading) (request : Request)
    (deletions : ℕ → List AbsolutePath) (tree : Tree) : Except NodeError Exchange :=
  (Program.run (sweeping deletions).world (getFile hmac deps now request) 0 tree).outcome

/-- The response has the bytes of the regular file that a key stands for, and their number. -/
def ServesFile (root : AbsolutePath) (key : String) (tree : Tree) (response : Response) : Prop :=
  ∃ path bytes mtimeMs contentType disposition, pathFor root key = .ok path ∧
    tree.lookup path = some (.file bytes mtimeMs) ∧
    response = .file contentType bytes.length disposition bytes

/-- The process goes on, and the client is answered: with 200 and the file, or with a 4xx status. -/
def DownloadSafe (root : AbsolutePath) (key : String) (tree : Tree) :
    Except NodeError Exchange → Prop
  | .error _ => False
  | .ok exchange => exchange.unhandled = none ∧
    ∃ response, exchange.response = some response ∧
      (response.status = 200 → ServesFile root key tree response) ∧
      (response.status = 200 ∨ 400 ≤ response.status ∧ response.status < 500)

/-- What a download from storage needs: the key is refused by the guard, or it names nothing when
`exists` looks, or it names a regular file when the stream opens, under a name that may stand in a
header. -/
def Deliverable (root : AbsolutePath) (key : String) (deletions : ℕ → List AbsolutePath)
    (tree : Tree) : Prop :=
  ∀ path, pathFor root key = .ok path →
    (sweptTree deletions tree 1).lookup path = none ∨
      ((contentDisposition key).toList.all isHeaderChar = true ∧
        ∃ bytes mtimeMs, (sweptTree deletions tree 4).lookup path = some (.file bytes mtimeMs))

/-- What becomes of a delivery, by what is there when the stream opens, and by what the system says
if there is nothing. -/
def delivered (key : String) (size : ℕ) (absence : ErrorCode) (look : Option Node) : Exchange :=
  if (contentDisposition key).toList.all isHeaderChar then
    match look with
    | some (.file bytes _) =>
      .answered (.file (contentTypeFor key) size (contentDisposition key) bytes)
    | some .directory => { response := none, unhandled := some (.system .eisdir) }
    | none => { response := none, unhandled := some (.system absence) }
  else
    match look with
    | some (.file _ _) => .answered (.internalError invalidHeader)
    | some .directory =>
      { response := some (.internalError invalidHeader), unhandled := some (.system .eisdir) }
    | none =>
      { response := some (.internalError invalidHeader), unhandled := some (.system absence) }

section Sweep

variable {deletions : ℕ → List AbsolutePath} {tree : Tree} {path : AbsolutePath} {node : Node}

/-- A sweep only removes: what is there after more of it was there before. -/
theorem lookup_sweptTree_of_le {earlier later : ℕ} (hle : earlier ≤ later)
    (h : (sweptTree deletions tree later).lookup path = some node) :
    (sweptTree deletions tree earlier).lookup path = some node := by
  induction later, hle using Nat.le_induction with
  | base => exact h
  | succ later _ ih => exact ih (lookup_removeFiles h)

/-- One look at the path: what is there after the sweep that came before it. -/
theorem run_stat (calls : ℕ) :
    Program.run (sweeping deletions).world (stat path) calls (sweptTree deletions tree calls) =
      ⟨((sweptTree deletions tree (calls + 1)).lookup path).elim
        (.error (.system (absence (sweptTree deletions tree (calls + 1)) path)))
        fun node ↦ .ok node.stats, calls + 1, sweptTree deletions tree (calls + 1)⟩ := by
  rw [stat, Program.run_perform]
  show Program.Ended.mk (answer .completes 0 (.stat path) (sweptTree deletions tree (calls + 1))).1
    (calls + 1) (answer .completes 0 (.stat path) (sweptTree deletions tree (calls + 1))).2 = _
  cases hnode : (sweptTree deletions tree (calls + 1)).lookup path <;> simp [answer, hnode]

/-- The stream opens its file. -/
theorem run_openRead (calls : ℕ) :
    Program.run (sweeping deletions).world (openRead path) calls
        (sweptTree deletions tree calls) =
      ⟨match (sweptTree deletions tree (calls + 1)).lookup path with
        | none => .error (.system (absence (sweptTree deletions tree (calls + 1)) path))
        | some .directory => .error (.system .eisdir)
        | some (.file bytes _) => .ok bytes,
        calls + 1, sweptTree deletions tree (calls + 1)⟩ := by
  rw [openRead, Program.run_perform]
  show Program.Ended.mk
    (answer .completes 0 (.openRead path) (sweptTree deletions tree (calls + 1))).1 (calls + 1)
    (answer .completes 0 (.openRead path) (sweptTree deletions tree (calls + 1))).2 = _
  cases hnode : (sweptTree deletions tree (calls + 1)).lookup path with
  | none => simp [answer, hnode]
  | some node => cases node <;> simp [answer, hnode]

/-- How a delivery ends, by what is there when the stream opens. -/
theorem run_deliver (key : String) (size calls : ℕ) :
    Program.run (sweeping deletions).world (deliver key size ⟨path⟩) calls
        (sweptTree deletions tree calls) =
      ⟨.ok (delivered key size (absence (sweptTree deletions tree (calls + 1)) path)
        ((sweptTree deletions tree (calls + 1)).lookup path)), calls + 1,
        sweptTree deletions tree (calls + 1)⟩ := by
  unfold deliver delivered
  split_ifs with hheader
  · rw [Program.run_handle, Program.run_bind, run_openRead]
    cases hnode : (sweptTree deletions tree (calls + 1)).lookup path with
    | none => rfl
    | some node => cases node <;> rfl
  · rw [Program.run_handle, Program.run_bind, run_openRead]
    cases hnode : (sweptTree deletions tree (calls + 1)).lookup path with
    | none => rfl
    | some node => cases node <;> rfl

variable {root : AbsolutePath} {key : String}

/-- Assumes: a key that the guard lets through. `exists` says whether anything is there. -/
theorem run_found (hpath : pathFor root key = .ok path) :
    Program.run (sweeping deletions).world
        (tryCatch (existsStored root key) fun _ ↦ return false) 0 tree =
      ⟨.ok ((sweptTree deletions tree 1).lookup path).isSome, 1, sweptTree deletions tree 1⟩ := by
  have hlook := @run_stat deletions tree path 0
  rw [existsStored_of_ok hpath, Program.run_handle, Program.run_handle, Program.run_bind]
  show (((Program.run _ (stat path) 0 (sweptTree deletions tree 0)).andThen _).handle _).handle
    _ = _
  rw [hlook]
  cases (sweptTree deletions tree (0 + 1)).lookup path <;> rfl

/-- A key that the guard refuses, or that names nothing, is answered with 404. -/
theorem run_serve_of_absent
    (h : ∀ path, pathFor root key = .ok path →
      (sweptTree deletions tree 1).lookup path = none) :
    (Program.run (sweeping deletions).world (serve root key) 0 tree).outcome =
      .ok (.answered notFound) := by
  rw [serve, Program.run_bind]
  cases hpath : pathFor root key with
  | error fault =>
    have hexists : existsStored root key = throw fault := by
      rw [existsStored, hpath]
      rfl
    rw [hexists]
    rfl
  | ok path =>
    rw [run_found hpath, h path hpath]
    rfl

/-- Assumes: something is there when `exists` looks. What follows is decided by the next looks. -/
theorem run_serve_of_present (hpath : pathFor root key = .ok path)
    (hnode : (sweptTree deletions tree 1).lookup path = some node) :
    (Program.run (sweeping deletions).world (serve root key) 0 tree).outcome =
      .ok (match (sweptTree deletions tree 2).lookup path,
          (sweptTree deletions tree 3).lookup path with
        | some node, some _ =>
          delivered key node.stats.size (absence (sweptTree deletions tree 4) path)
            ((sweptTree deletions tree 4).lookup path)
        | some _, none =>
          .answered (.internalError (.system (absence (sweptTree deletions tree 3) path)))
        | none, _ =>
          .answered (.internalError (.system (absence (sweptTree deletions tree 2) path)))) := by
  have hsecond := @run_stat deletions tree path 1
  have hthird := @run_stat deletions tree path 2
  rw [serve, Program.run_bind, run_found hpath, hnode, Option.isSome_some,
    Program.Ended.andThen_ok, if_pos rfl, Program.run_handle, Program.run_bind, size_of_ok hpath,
    Program.run_bind, hsecond]
  cases hlook : (sweptTree deletions tree 2).lookup path with
  | none => rfl
  | some second =>
    rw [Option.elim_some, Program.Ended.andThen_ok, Program.run_pure, Program.Ended.andThen_ok,
      Program.run_bind, openStored_of_ok hpath, Program.run_bind, hthird]
    cases hlast : (sweptTree deletions tree 3).lookup path with
    | none => rfl
    | some third =>
      rw [Option.elim_some, Program.Ended.andThen_ok, Program.run_pure, Program.Ended.andThen_ok,
        run_deliver]
      rfl

end Sweep

/-! ### What storage is asked -/

section Calls

variable {root path : AbsolutePath} {key : String}

/-- Assumes: a key that the guard lets through. Every call is on the path it stands for. -/
theorem serve_calls_of_ok (hpath : pathFor root key = .ok path) :
    (serve root key).AllCalls fun call ↦ call.paths = [path] := by
  rw [serve, existsStored_of_ok hpath, size_of_ok hpath, openStored_of_ok hpath]
  have hstat : (stat path).AllCalls fun call ↦ call.paths = [path] :=
    Program.allCalls_perform rfl
  have hopen : (openRead path).AllCalls fun call ↦ call.paths = [path] :=
    Program.allCalls_perform rfl
  have hdeliver : ∀ size, (deliver key size ⟨path⟩).AllCalls fun call ↦ call.paths = [path] := by
    intro size
    have hanswer : ∀ response : Bytes → Exchange,
        (openRead path >>= fun bytes ↦ return response bytes).AllCalls
          fun call ↦ call.paths = [path] :=
      fun response ↦ Program.allCalls_bind hopen fun _ ↦ .finish _
    unfold deliver
    split_ifs
    · exact Program.allCalls_handle (hanswer _) fun _ ↦ .finish _
    · exact Program.allCalls_handle (hanswer _) fun _ ↦ .finish _
  refine Program.allCalls_bind (Program.allCalls_handle
    (Program.allCalls_handle (Program.allCalls_bind hstat fun _ ↦ .finish _) fun _ ↦ .finish _)
    fun _ ↦ .finish _) fun found ↦ ?_
  split_ifs
  · refine Program.allCalls_handle (Program.allCalls_bind
      (Program.allCalls_bind hstat fun _ ↦ .finish _) fun size ↦ ?_) fun _ ↦ .finish _
    -- the stream that `open` hands over is the one for the path
    refine .call rfl fun reply ↦ ?_
    cases reply with
    | error fault => exact .finish _
    | ok stats => exact hdeliver size
  · exact .finish _

/-- Every call of the part that asks storage is on the path that the key stands for. -/
theorem serve_calls (root : AbsolutePath) (key : String) :
    (serve root key).AllCalls fun call ↦
      ∃ path, pathFor root key = .ok path ∧ call.paths = [path] := by
  rcases pathFor_cases root key with hpath | hpath
  · exact (serve_calls_of_ok hpath).mono fun call hcall ↦ ⟨resolveKey root key, hpath, hcall⟩
  · have hexists : existsStored root key =
        throw (.thrown ("Refusing key that escapes storage root: " ++ key)) := by
      rw [existsStored, hpath]
      rfl
    rw [serve, hexists]
    exact .finish _

end Calls

/-! ### When downloads are safe -/

/-- A request that is answered before storage is asked is refused with a 4xx status. -/
theorem answeredEarly_status {hmac : Hmac} {deps : Deps} {now : ClockReading} {request : Request}
    {response : Response} (h : answeredEarly hmac deps now request = some response) :
    400 ≤ response.status ∧ response.status < 500 := by
  unfold answeredEarly signatureGate at h
  split_ifs at h with hkey hsecret
  · obtain rfl := Option.some.inj h
    exact ⟨by decide, by decide⟩
  · split at h
    · cases h
    · rename_i reason _
      obtain rfl := Option.some.inj h
      cases reason <;> exact ⟨by decide, by decide⟩

/-- A 4xx response is safe. -/
theorem downloadSafe_answered {root : AbsolutePath} {key : String} {tree : Tree}
    {response : Response} (hlow : 400 ≤ response.status) (hhigh : response.status < 500) :
    DownloadSafe root key tree (.ok (.answered response)) :=
  ⟨rfl, response, rfl, fun hstatus ↦ by omega, Or.inr ⟨hlow, hhigh⟩⟩

/-- A 500 response is not. -/
theorem not_downloadSafe_internalError {root : AbsolutePath} {key : String} {tree : Tree}
    {fault : NodeError} {unhandled : Option NodeError} :
    ¬ DownloadSafe root key tree (.ok ⟨some (.internalError fault), unhandled⟩) := by
  rintro ⟨-, response, hresponse, -, hstatus⟩
  obtain rfl := Option.some.inj hresponse
  have hfault : (Response.internalError fault).status = 500 := rfl
  omega

/-- An error event that nobody listens for is not safe. -/
theorem not_downloadSafe_unhandled {root : AbsolutePath} {key : String} {tree : Tree}
    {fault : NodeError} {response : Option Response} :
    ¬ DownloadSafe root key tree (.ok ⟨response, some fault⟩) := by
  rintro ⟨hunhandled, -⟩
  cases hunhandled

/-- A delivery is safe exactly when it finds the regular file and may name it. -/
theorem downloadSafe_serve_iff (root : AbsolutePath) (key : String)
    (deletions : ℕ → List AbsolutePath) (tree : Tree) :
    DownloadSafe root key tree
        (Program.run (sweeping deletions).world (serve root key) 0 tree).outcome ↔
      Deliverable root key deletions tree := by
  by_cases habsent : ∀ path, pathFor root key = .ok path →
      (sweptTree deletions tree 1).lookup path = none
  · rw [run_serve_of_absent habsent]
    constructor
    · intro _ path hpath
      exact Or.inl (habsent path hpath)
    · intro _
      exact downloadSafe_answered (by decide) (by decide)
  · push Not at habsent
    obtain ⟨path, hpath, hpresent⟩ := habsent
    obtain ⟨node, hnode⟩ := Option.ne_none_iff_exists'.mp hpresent
    have hdeliverable : Deliverable root key deletions tree ↔
        (contentDisposition key).toList.all isHeaderChar = true ∧
          ∃ bytes mtimeMs,
            (sweptTree deletions tree 4).lookup path = some (.file bytes mtimeMs) := by
      constructor
      · intro h
        exact (h path hpath).resolve_left hpresent
      · intro h other hother
        obtain rfl := Except.ok.inj (hpath.symm.trans hother)
        exact Or.inr h
    rw [run_serve_of_present hpath hnode, hdeliverable]
    cases hlast : (sweptTree deletions tree 4).lookup path with
    | none =>
      refine iff_of_false ?_ (by simp)
      split
      · unfold delivered
        split_ifs <;> exact not_downloadSafe_unhandled
      · exact not_downloadSafe_internalError
      · exact not_downloadSafe_internalError
    | some last =>
      rw [lookup_sweptTree_of_le (by norm_num) hlast, lookup_sweptTree_of_le (by norm_num) hlast]
      have hstart := lookup_sweptTree_of_le (Nat.zero_le 4) hlast
      unfold delivered
      cases last with
      | directory =>
        refine iff_of_false ?_ (by simp)
        split_ifs <;> exact not_downloadSafe_unhandled
      | file bytes mtimeMs =>
        split_ifs with hheader
        · refine iff_of_true ⟨rfl, _, rfl, fun _ ↦ ?_, Or.inl rfl⟩ ⟨hheader, bytes, mtimeMs, rfl⟩
          exact ⟨path, bytes, mtimeMs, _, _, hpath, hstart, rfl⟩
        · exact iff_of_false not_downloadSafe_internalError fun h ↦ hheader h.1

/-- A request that is not answered early is served. -/
theorem exchange_of_admitted {hmac : Hmac} {deps : Deps} {now : ClockReading} {request : Request}
    (h : answeredEarly hmac deps now request = none) (deletions : ℕ → List AbsolutePath)
    (tree : Tree) :
    exchange hmac deps now request deletions tree =
      (Program.run (sweeping deletions).world (serve deps.root request.splat.key) 0
        tree).outcome := by
  rw [exchange, getFile, h]

/-- A download is safe, whatever a sweep removes before its four looks, exactly when it is answered
before storage is asked or what storage has is deliverable. -/
theorem downloadSafe_iff (hmac : Hmac) (deps : Deps) (now : ClockReading) (request : Request)
    (deletions : ℕ → List AbsolutePath) (tree : Tree) :
    DownloadSafe deps.root request.splat.key tree
        (exchange hmac deps now request deletions tree) ↔
      answeredEarly hmac deps now request ≠ none ∨
        Deliverable deps.root request.splat.key deletions tree := by
  cases hearly : answeredEarly hmac deps now request with
  | some response =>
    obtain ⟨hlow, hhigh⟩ := answeredEarly_status hearly
    have hexchange : exchange hmac deps now request deletions tree = .ok (.answered response) := by
      rw [exchange, getFile, hearly]
      rfl
    rw [hexchange]
    exact iff_of_true (downloadSafe_answered hlow hhigh) (Or.inl (Option.some_ne_none response))
  | none =>
    rw [exchange_of_admitted hearly, downloadSafe_serve_iff]
    simp

/-! ### A directory -/

/-- `/data/storage/outputs` -/
def outputs : AbsolutePath := ⟨["data", "storage", "outputs"], by decide⟩

/-- A storage with its directory of outputs. -/
def storageWithOutputs : Tree :=
  ((∅ : Tree).insert dataStorage .directory).insert outputs .directory

theorem pathFor_outputs : pathFor dataStorage "outputs" = .ok outputs := rfl

/-- Not every download is safe: with signing off and nobody else at work, `GET /files/outputs` for
the directory of outputs ends the process. -/
theorem not_downloadSafe_directory :
    ¬ ∀ (hmac : Hmac) (deps : Deps) (now : ClockReading) (request : Request)
      (deletions : ℕ → List AbsolutePath) (tree : Tree),
      answeredEarly hmac deps now request = none →
        DownloadSafe deps.root request.splat.key tree
          (exchange hmac deps now request deletions tree) := by
  intro h
  have hearly : answeredEarly .recorded ⟨dataStorage, ""⟩ ⟨0, by decide⟩
      ⟨.segments ["outputs"], []⟩ = none := rfl
  have hsafe := h .recorded ⟨dataStorage, ""⟩ ⟨0, by decide⟩ ⟨.segments ["outputs"], []⟩
    (fun _ ↦ []) storageWithOutputs hearly
  rw [exchange_of_admitted hearly] at hsafe
  have hdeliverable : Deliverable dataStorage "outputs" (fun _ ↦ []) storageWithOutputs :=
    (downloadSafe_serve_iff dataStorage "outputs" (fun _ ↦ []) storageWithOutputs).mp hsafe
  have hlook : storageWithOutputs.lookup outputs = some .directory := by decide
  rcases hdeliverable outputs pathFor_outputs with habsent | ⟨-, bytes, mtimeMs, hfile⟩
  · cases hlook.symm.trans habsent
  · cases hlook.symm.trans hfile

end FileForge.Files.Download
