import FileForge.Files.Links
import FileForge.Frontend.Api
import FileForge.Frontend.App
import FileForge.Jobs.Concurrency
import FileForge.Jobs.Events

/-!
# From a click to a download

A job on its whole way: `createJob` in the browser, `POST /jobs`, the text in the queue, the attempt
of the worker, the event that carries the result, `POST /files/links` and `GET /files/*splat`. Each
part is followed by its own module; `results_are_delivered` puts them together. The result of an
attempt names the key of the product of the file, the operation and the options that were asked for;
a page that watches the job shows this key once it hears that the job has completed, and the link
for it leads to the bytes of the product. Whether the page hears of it is another question: the
event can be missed (`OutcomeDelivery`).

The keys of images always make good links: nothing of the uploaded name is left in them
(`fetchable_imageKey`). The keys of CSV products keep the name of the upload, so their links lead to
the file exactly when the name does not get in the way.
-/

set_option autoImplicit false
set_option relaxedAutoImplicit false

namespace FileForge.Frontend.Delivery

open Foundation.JsonValue Foundation.JsonReader Foundation.JsonTrip Foundation.Interaction
open Foundation.PosixPath Foundation.FileTree
open Shared.Contract Files.Repository Files.Upload Files.Signing Files.Links
open Foundation.EcmaText (forall_mem_of_all)
open Storage.LocalStorage (pathFor)
open Jobs.JobOptions Jobs.Processors Jobs.Attempts Jobs.HopelessJobs Jobs.KeyLayout Jobs.Products
open Frontend.Api (runCreateJob carriedOptions)

/-! ### The keys of images -/

/-- A letter, a digit, a dash, a dot or a slash. -/
def IsKeyChar (c : Char) : Prop :=
  (45 ≤ c.toNat ∧ c.toNat ≤ 57) ∨ (65 ≤ c.toNat ∧ c.toNat ≤ 90) ∨ (97 ≤ c.toNat ∧ c.toNat ≤ 122)

instance : DecidablePred IsKeyChar := fun _ ↦ inferInstanceAs (Decidable (_ ∨ _))

theorem isKeyChar_of_isDigit {c : Char} (h : c.isDigit = true) : IsKeyChar c := by
  have hrange : 48 ≤ c.toNat ∧ c.toNat ≤ 57 := Char.isDigit_iff_toNat.mp h
  exact Or.inl ⟨by omega, hrange.2⟩

theorem isKeyChar_of_isIdChar {c : Char} (h : IsIdChar c) : IsKeyChar c := by
  rcases h with hdigit | hletter
  · exact isKeyChar_of_isDigit hdigit
  · have hall : ∀ d ∈ "abcdefABCDEF-".toList, IsKeyChar d := forall_mem_of_all (by decide)
    exact hall c hletter

/-- Such a character has no meaning in an address and may stand in a header. -/
theorem IsKeyChar.plain {c : Char} (h : IsKeyChar c) :
    0x20 < c.toNat ∧ c ≠ '#' ∧ c ≠ '%' ∧ c ≠ '?' ∧ Foundation.WebUrl.isBackslash c = false ∧
      Files.Download.isHeaderChar c = true := by
  have hne : ∀ d : Char, ¬ IsKeyChar d → c ≠ d := fun d hd heq ↦ hd (heq ▸ h)
  refine ⟨?_, hne '#' (by decide), hne '%' (by decide), hne '?' (by decide), ?_, ?_⟩
  · unfold IsKeyChar at h
    omega
  · rw [Foundation.WebUrl.isBackslash, decide_eq_false_iff_not]
    unfold IsKeyChar at h
    omega
  · simp only [Files.Download.isHeaderChar, Bool.or_eq_true, Bool.and_eq_true, decide_eq_true_eq]
    unfold IsKeyChar at h
    omega

theorem isKeyChar_lookup (format fallback : String)
    (hfallback : ∀ c ∈ fallback.toList, IsKeyChar c) :
    ∀ c ∈ ((formatExtensions.lookup format).getD fallback).toList, IsKeyChar c := by
  have hall : ∀ entry ∈ formatExtensions, (entry.2.toList.all fun c ↦ IsKeyChar c) = true := by
    decide
  exact @extension_of_forall (fun ext ↦ ∀ c ∈ ext.toList, IsKeyChar c)
    (fun entry hentry ↦ forall_mem_of_all (hall entry hentry)) format fallback hfallback

/-- What an operation adds to a key. -/
theorem isKeyChar_of_isImageWork {work : ImageWork} (h : IsImageWork work) (metadata : Metadata) :
    (∀ c ∈ work.suffix.toList, IsKeyChar c) ∧
      ∀ c ∈ (work.ext metadata).toList, IsKeyChar c := by
  cases h with
  | resize options =>
    have hsuffix : ∀ c ∈ "resized".toList, IsKeyChar c := forall_mem_of_all (by decide)
    exact ⟨hsuffix, isKeyChar_lookup _ _ (forall_mem_of_all (by decide))⟩
  | convert options =>
    refine ⟨?_, isKeyChar_lookup _ _ (forall_mem_of_all (by decide))⟩
    show ∀ c ∈ options.format.text.toList, IsKeyChar c
    apply forall_mem_of_all
    cases options.format <;> decide
  | thumbnail options =>
    have hext : ∀ c ∈ ".webp".toList, IsKeyChar c := forall_mem_of_all (by decide)
    refine ⟨?_, hext⟩
    show ∀ c ∈ ("thumb" ++ toString options.size.value).toList, IsKeyChar c
    rw [String.toList_append, Nat.toString_eq_repr, Nat.toList_repr]
    intro c hc
    rcases List.mem_append.mp hc with hword | hnumber
    · have hall : ∀ d ∈ "thumb".toList, IsKeyChar d := forall_mem_of_all (by decide)
      exact hall c hword
    · exact isKeyChar_of_isDigit (Nat.isDigit_of_mem_toDigits (by decide) (by decide) hnumber)

/-- A key for which a link can be made: it has no control characters and no question mark, and it
does not end with a space. -/
structure Linkable (key : String) : Prop where
  chars : ∀ c ∈ key.toList, 0x20 ≤ c.toNat ∧ c ≠ '?'
  ends : ∃ start last, key.toList = start ++ [last] ∧ 0x20 < last.toNat

section Image

variable (id : Uuid) (final : List Char → List Char → Bool) (recordId now name : String)
  {work : ImageWork} (metadata : Metadata) (fresh : Csv.OutputKeys.IdStart)

theorem isKeyChar_imageKey (hwork : IsImageWork work) :
    ∀ c ∈ (imageKey (storageKeyFor (runtimeOf id final recordId now) name) work.suffix
      (work.ext metadata) fresh).toList, IsKeyChar c := by
  obtain ⟨hsuffix, hext⟩ := isKeyChar_of_isImageWork hwork metadata
  have hdirectory : ∀ c ∈ "outputs/".toList, IsKeyChar c := forall_mem_of_all (by decide)
  have hdash : ∀ c ∈ "-".toList, IsKeyChar c := forall_mem_of_all (by decide)
  have hfresh : ∀ c ∈ fresh.text.toList, IsKeyChar c :=
    fresh.forall_mem (fun c ↦ isKeyChar_of_isDigit) (forall_mem_of_all (by decide))
  rw [imageKey_storageKeyFor]
  simp only [String.toList_append, List.forall_mem_append]
  exact ⟨⟨⟨⟨⟨⟨hdirectory, fun c hc ↦ isKeyChar_of_isIdChar (id.chars c hc)⟩, hdash⟩, hsuffix⟩,
    hdash⟩, hfresh⟩, hext⟩

theorem linkable_imageKey (hwork : IsImageWork work) :
    Linkable (imageKey (storageKeyFor (runtimeOf id final recordId now) name) work.suffix
      (work.ext metadata) fresh) := by
  have hchars := isKeyChar_imageKey id final recordId now name metadata fresh hwork
  refine ⟨fun c hc ↦ ?_, ?_⟩
  · obtain ⟨hspace, -, -, hquestion, -⟩ := (hchars c hc).plain
    exact ⟨hspace.le, hquestion⟩
  · have hne : (imageKey (storageKeyFor (runtimeOf id final recordId now) name) work.suffix
        (work.ext metadata) fresh).toList ≠ [] := by
      rw [imageKey_storageKeyFor]
      simp [String.toList_append]
    exact ⟨_, _, (List.dropLast_append_getLast hne).symm,
      (hchars _ (List.getLast_mem hne)).plain.1⟩

/-- The key of an image makes a good link. -/
theorem fetchable_imageKey (hwork : IsImageWork work) :
    Fetchable (imageKey (storageKeyFor (runtimeOf id final recordId now) name) work.suffix
      (work.ext metadata) fresh) := by
  have hchars := isKeyChar_imageKey id final recordId now name metadata fresh hwork
  obtain ⟨rest, hkey, hslash⟩ := exists_imageKey_eq id final recordId now name hwork metadata fresh
  have hsplit : splitSlash (imageKey (storageKeyFor (runtimeOf id final recordId now) name)
      work.suffix (work.ext metadata) fresh) = ["outputs", id.text ++ "-" ++ rest] := by
    have hdirectory : "outputs/" ++ (id.text ++ "-" ++ rest) =
        "outputs" ++ "/" ++ (id.text ++ "-" ++ rest) := rfl
    rw [hkey, hdirectory, splitSlash_append, splitSlash_of_slash_not_mem (by decide),
      splitSlash_of_slash_not_mem hslash]
    rfl
  have hdash : '-' ∈ (id.text ++ "-" ++ rest).toList := by
    simp [String.toList_append]
  have hname : ∀ other : String, '-' ∉ other.toList → id.text ++ "-" ++ rest ≠ other :=
    fun other hother heq ↦ hother (heq ▸ hdash)
  have hbase : basename (imageKey (storageKeyFor (runtimeOf id final recordId now) name) work.suffix
      (work.ext metadata) fresh) = id.text ++ "-" ++ rest := by
    have hfilter : ["outputs", id.text ++ "-" ++ rest].filter (· ≠ "") =
        ["outputs", id.text ++ "-" ++ rest] := by
      refine List.filter_eq_self.mpr fun segment hsegment ↦ ?_
      rw [decide_eq_true_eq]
      rcases List.mem_pair.mp hsegment with rfl | rfl
      · decide
      · exact hname "" (by decide)
    rw [basename, hsplit, hfilter]
    rfl
  refine ⟨⟨fun hmem ↦ ?_, fun hmem ↦ ?_, fun c hc ↦ ?_, fun segment hsegment ↦ ?_⟩, fun c hc ↦ ?_⟩
  · exact (hchars _ hmem).plain.2.1 rfl
  · exact (hchars _ hmem).plain.2.2.1 rfl
  · exact (hchars c hc).plain.2.2.2.2.1
  · rw [hsplit] at hsegment
    rcases List.mem_pair.mp hsegment with rfl | rfl
    · decide
    · exact ⟨hname "." (by decide), hname ".." (by decide)⟩
  · rw [hbase] at hc
    refine (hchars c ?_).plain.2.2.2.2.2
    rw [hkey, String.toList_append]
    exact List.mem_append_right _ hc

end Image

/-! ### The keys of products -/

/-- The key of a product of an upload. -/
theorem linkable_of_productOf {env : Env} {files : AbsolutePath → Option Bytes} {product : Product}
    {payload : JobPayload}
    (h : productOf env files payload = some product)
    (huploaded : ∀ record, recordOf env payload.fileId = .ok (some record) → Uploaded record) :
    Linkable product.key ∧ (OnImages payload.operation → Fetchable product.key) := by
  obtain ⟨record, hrecord, hkind⟩ := key_of_productOf h
  obtain ⟨id, final, recordId, now, name, horiginal, hstorage⟩ := huploaded record hrecord
  rcases hkind with ⟨work, metadata, hwork, hkey⟩ | ⟨hother, kind, hkey⟩
  · rw [hkey, hstorage]
    exact ⟨linkable_imageKey id final recordId now _ metadata env.fresh hwork,
      fun _ ↦ fetchable_imageKey id final recordId now _ metadata env.fresh hwork⟩
  · refine ⟨?_, fun himages ↦ absurd himages hother⟩
    rw [hkey, horiginal]
    exact ⟨producedKey_chars name kind env.fresh,
      Csv.OutputKeys.exists_producedKey_eq name kind env.fresh⟩

/-! ### The whole way -/

section Way

variable (deps : Jobs.Submission.Deps) (services : Jobs.Submission.Services) (fileId : String)
  (operation : Operation) {options : Fields} (calls : ℕ) (state : Jobs.Submission.State)

/-- A call that comes back with a job has queued it. -/
theorem queued_of_ok (hoptions : Distinct (.object options)) {reply : Api.CreateJobReply}
    (h : (runCreateJob deps services fileId operation options calls state).1 = .ok reply) :
    ∃ job, (runCreateJob deps services fileId operation options calls state).2.jobs =
        state.jobs ++ [job] ∧ job.id = reply.id ∧
      Api.Holds job {
        fileId := fileId, operation := operation, options := carriedOptions options } := by
  simp only [runCreateJob, Api.exchangeCreateJob] at h ⊢
  rcases Jobs.Submission.exchange_cases deps services
    (some (Foundation.JsonText.stringify
      (.object (Api.createJobFields fileId operation options)))) calls state with
    ⟨request, hadmits, -, hanswer, hjobs⟩ | ⟨⟨problem, hreports⟩, -⟩
  · rw [hanswer, Api.createJob_accepted] at h
    refine ⟨_, hjobs, ?_, Api.holds_of_admits hoptions hadmits⟩
    rw [← Except.ok.inj h]
  · rw [Api.createJob_of_reports hreports] at h
    cases h

/-- The keys that the worker has reported are read off the event. -/
theorem outputsFrom_toJson (result : Jobs.Worker.ProcessorResult) :
    App.outputsFrom (some result.toJson) = result.outputs := by
  have hget : result.toJson.get "outputs" = some (.array (result.outputs.map .string)) := rfl
  rw [App.outputsFrom, Option.bind_some, hget]
  show (result.outputs.map Json.string).filterMap Json.asString = _
  rw [List.filterMap_map]
  exact List.filterMap_some

/-- The page shows the job, and its event source is open. -/
structure Watches (page : App.State) (id : String) : Prop where
  shown : page.jobId = some id
  watched : page.watched = some id
  listening : page.listening = true

/-- A page that watches the job shows these keys once it hears the event that the worker publishes
for the result. -/
def ShownAs (id : String) (result : Jobs.Worker.ProcessorResult) (keys : List String) : Prop :=
  ∀ (job : Jobs.Queue.Job) (page : App.State), job.id = id → Watches page id →
    ∃ event after, Jobs.Events.handler id
        (Jobs.Events.publication (Jobs.Worker.completedEvent job result)).1
        (some (Jobs.Events.publication (Jobs.Worker.completedEvent job result)).2) = some event ∧
      App.step page (.message event) = some after ∧
      after.progress.state = some .completed ∧ after.progress.outputs = keys

theorem shownAs (id : String) (result : Jobs.Worker.ProcessorResult) :
    ShownAs id result result.outputs := by
  rintro job page rfl ⟨hshown, hwatched, hlistening⟩
  have hheard := Jobs.Events.handler_publication job.id (Jobs.Worker.completedEvent job result)
  rw [if_pos ⟨rfl, Jobs.Worker.completedEvent_valid job result⟩] at hheard
  refine ⟨_, _, hheard, if_pos hlistening, ?_⟩
  rw [App.State.onMessage, App.State.flush, if_pos (hshown.trans hwatched.symm)]
  exact ⟨rfl, outputsFrom_toJson result⟩

end Way

/-- A call of `createJob` that comes back with a job: the job is in the queue under the id of the
reply, and whenever an attempt on it ends without trouble, its result names one key, that of the
product of the file, the operation and the options of the call; a page that watches the job shows
this key once it hears that the job has completed; and the bytes of the product are stored under it.
The file is an upload: then the link for the key leads to these bytes when the key makes a good link
and the link expires at a valid date, and never else; the key of an image always does. Assumes:
options of distinct names, and a request for the link's file before it expires. -/
theorem results_are_delivered (deps : Jobs.Submission.Deps) (services : Jobs.Submission.Services)
    (fileId : String) (operation : Operation) {options : Fields}
    (hoptions : Distinct (.object options)) (calls : ℕ) (state : Jobs.Submission.State)
    {reply : Api.CreateJobReply}
    (hreply : (runCreateJob deps services fileId operation options calls state).1 = .ok reply) :
    ∃ job data, (runCreateJob deps services fileId operation options calls state).2.jobs =
        state.jobs ++ [job] ∧ job.id = reply.id ∧ parse job.data = some data ∧
      ∀ (env : Env) (files : AbsolutePath → Option Bytes) (result : Jobs.Worker.ProcessorResult),
        attempt env data files = .ok result → ∃ product path,
          productOf env files {
            fileId := fileId, operation := operation, options := carriedOptions options } =
              some product ∧
          result.outputs = [product.key] ∧ ShownAs reply.id result [product.key] ∧
          pathFor env.root product.key = .ok path ∧
          (Program.run env.world (runJobWithRetryPolicy env.toRuntime data) 0
            { files := files }).state.files path = some product.bytes ∧
          ((∀ record, recordOf env fileId = .ok (some record) → Uploaded record) →
            (OnImages operation → Fetchable product.key) ∧
            ∀ (hmac : Hmac) (linkDeps : LinkDeps) (tree : Tree) (mtimeMs : ℚ)
              (now later : ClockReading), linkDeps.root = env.root →
              tree.lookup path = some (.file product.bytes mtimeMs) →
              (linkDeps.downloadSecret ≠ "" →
                later.ms / 1000 ≤ now.ms / 1000 + linkDeps.downloadTtlSeconds) →
              (Fetched hmac linkDeps now later product.key product.bytes tree ↔
                Fetchable product.key ∧ Dated linkDeps now)) := by
  obtain ⟨job, hjobs, hid, -, data, hdata, hpayload⟩ :=
    queued_of_ok deps services fileId operation calls state hoptions hreply
  refine ⟨job, data, hjobs, hid, hdata, fun env files result hattempt ↦ ?_⟩
  obtain ⟨payload, product, hparsed, hproduct, target, htarget, hresult, hafter⟩ :=
    completes_runJobWithRetryPolicy.mp (ends_iff_completes.mp ⟨hattempt, rfl⟩)
  rw [hpayload, Option.some.injEq] at hparsed
  subst hparsed
  have hpath := pathFor_of_resolved htarget
  have houtputs : result.outputs = [product.key] := by
    rw [← hresult]
    rfl
  refine ⟨product, target, hproduct, houtputs, ?_, hpath, ?_, fun huploaded ↦ ?_⟩
  · rw [← houtputs]
    exact shownAs reply.id result
  · rw [← hafter]
    exact Function.update_self ..
  · obtain ⟨⟨hchars, start, last, hkey, hlast⟩, himages⟩ :=
      linkable_of_productOf hproduct huploaded
    refine ⟨himages, fun hmac linkDeps tree mtimeMs now later hroot hstored hlater ↦ ?_⟩
    exact fetched_key_iff hmac linkDeps hkey hlast hchars (hroot ▸ hpath) hstored hlater

/-- A thumbnail of an upload is asked for. -/
def thumbnailCall : Except Api.ClientError Api.CreateJobReply × Jobs.Submission.State :=
  runCreateJob Jobs.Submission.quietDeps {} "a" .imageThumbnail [] 0
    (Jobs.Submission.emptyQueue (Files.StoredRecords.save 1 Foundation.ExpiringStore.empty 0
      picture))

/-- Links without a signature. -/
def openLinks : LinkDeps := ⟨⟨Storage.LocalStorage.dataStorage, ""⟩, 1200, by decide⟩

theorem results_are_delivered_thumbnail :
    ∃ (reply : Api.CreateJobReply) (job : Jobs.Submission.QueuedJob) (data : Json)
        (result : Jobs.Worker.ProcessorResult) (product : Product) (path : AbsolutePath),
      thumbnailCall.1 = .ok reply ∧
      thumbnailCall.2.jobs = [job] ∧ job.id = reply.id ∧ parse job.data = some data ∧
      attempt Jobs.Concurrency.oneUpload data galleryFiles = .ok result ∧
      result.outputs = [product.key] ∧ ShownAs reply.id result [product.key] ∧
      Fetched .recorded openLinks ⟨0, by decide⟩ ⟨0, by decide⟩ product.key product.bytes
        ((∅ : Tree).insert path (.file product.bytes 0)) := by
  have hoptions : Distinct (.object []) :=
    .object List.nodup_nil fun entry hentry ↦ absurd hentry List.not_mem_nil
  have hcode : thumbnailCall.1.isOk = true := by
    decide +kernel
  obtain ⟨reply, hreply⟩ : ∃ reply, thumbnailCall.1 = .ok reply := by
    cases hcall : thumbnailCall.1 with
    | ok reply => exact ⟨reply, rfl⟩
    | error error =>
      rw [hcall] at hcode
      cases hcode
  obtain ⟨job, data, hjobs, hid, hdata, hdelivered⟩ := results_are_delivered
    Jobs.Submission.quietDeps {} "a" .imageThumbnail hoptions 0
    (Jobs.Submission.emptyQueue (Files.StoredRecords.save 1 Foundation.ExpiringStore.empty 0
      picture)) hreply
  have hqueued : thumbnailCall.2.jobs = [job] := hjobs
  have hended : (thumbnailCall.2.jobs.head?.bind fun job ↦ parse job.data).map
      (fun data ↦ (attempt Jobs.Concurrency.oneUpload data galleryFiles).isOk) = some true := by
    decide +kernel
  rw [hqueued, List.head?_cons, Option.bind_some, hdata, Option.map_some,
    Option.some.injEq] at hended
  obtain ⟨result, hresult⟩ : ∃ result,
      attempt Jobs.Concurrency.oneUpload data galleryFiles = .ok result := by
    cases hattempt : attempt Jobs.Concurrency.oneUpload data galleryFiles with
    | ok result => exact ⟨result, rfl⟩
    | error fault =>
      rw [hattempt] at hended
      cases hended
  obtain ⟨product, path, -, houtputs, hshown, -, -, hlinks⟩ :=
    hdelivered Jobs.Concurrency.oneUpload galleryFiles result hresult
  obtain ⟨himages, hfetched⟩ := hlinks fun record hrecord ↦
    Jobs.Concurrency.uploaded_of_oneUpload "a" record hrecord
  have himage : Operation.imageThumbnail ∈ operationsByKind .image := by decide
  refine ⟨reply, job, data, result, product, path, hreply, hqueued, hid, hdata, hresult, houtputs,
    hshown, ?_⟩
  exact (hfetched .recorded openLinks _ 0 _ _ rfl (AList.lookup_insert _)
    fun hsigned ↦ absurd rfl hsigned).mpr ⟨himages himage, Or.inl rfl⟩

end FileForge.Frontend.Delivery
