import FileForge.Api.Answers
import FileForge.Files.UploadAtomicity
import FileForge.Foundation.RelyGuarantee

/-!
# Asking after an upload

`GET /uploads/:id` beside any number of `POST /uploads` that run at the same time. An upload writes
the record of its own id only, so between two of its calls the others leave this record alone, and
what it has answered stays true of the record: `created_is_read` says that whoever was told of an
upload reads the same fields under its id until the record expires, and nothing after that.
-/

set_option autoImplicit false
set_option relaxedAutoImplicit false

namespace FileForge.Files.UploadReads

open Foundation.JsonValue Foundation.Interaction Foundation.ExpiringStore
open Foundation.FileTree (NodeError)
open Foundation.Interleaving Foundation.RelyGuarantee
open Api.Answers (internalError)
open Repository Upload UploadAtomicity

/-! ### The answers -/

/-- The body of an upload, as it is written. -/
def createdJson (body : Created) : Json :=
  .object [("id", .string body.id), ("originalName", .string body.originalName),
    ("mimeType", .string body.mimeType), ("size", .number body.size),
    ("uploadedAt", .string body.uploadedAt)]

/-- `GET /uploads/:id`. -/
def getUpload (production : Bool) (records : Records) (now : ℕ) (id : String) :
    Api.Answers.Answer :=
  match Repository.get records now id with
  | .error message => internalError production message
  | .ok none => .problem 404 "not_found" "No upload with that id (it may have expired)"
  | .ok (some record) => { status := 200, body := createdJson (createdFrom record) }

/-! ### What an upload relies on -/

/-- An upload that is asked for: its file, and what its handler takes from the runtime. -/
structure Asked where
  runtime : Runtime
  file : StagedFile

/-- The entry of a record. -/
def entryOf (id : String) (state : State) : Option (Entry (Option Json)) := state.records (keyFor id)

/-- The entry of a record that was saved at a moment. -/
def savedEntry (record : FileRecord) (savedAt : ℕ) : Option (Entry (Option Json)) :=
  some ⟨some record.toJson, some (savedAt + defaultTtlSeconds * 1000)⟩

/-- The calls of an upload: it saves under its own id. -/
def Allowed (id : String) : Call → Prop
  | .set record => record.id = id
  | .disk _ | .incrby _ _ => True

/-- What a call of an upload may do to the entry of its own record. It is one of the first calls of
the run. -/
def May (machine : Machine) (limit : ℕ) : (request : Call) → Option (Entry (Option Json)) →
    Except NodeError (Reply request) → Option (Entry (Option Json)) → Prop
  | .set record, _, reply, after =>
    reply = .ok () → ∃ calls < limit, after = savedEntry record (machine.now calls)
  | .disk _, before, _, after | .incrby _ _, before, _, after => after = before

/-- What an answer says of the entry. -/
def Tells (machine : Machine) (limit : ℕ) (asked : Asked) (outcome : Except NodeError Answer)
    (entry : Option (Entry (Option Json))) : Prop :=
  ∀ body, outcome = .ok (.created body) → ∃ record, body = createdFrom record ∧
    record.id = asked.runtime.recordId ∧
      ∃ calls < limit, entry = savedEntry record (machine.now calls)

variable (machine : Machine) {limit : ℕ}

theorem may_world (id : String) (calls : ℕ) (request : Call) (state : State)
    (hcalls : calls < limit) (h : Allowed id request) :
    May machine limit request (entryOf id state) (machine.world calls request state).1
      (entryOf id (machine.world calls request state).2) := by
  cases request with
  | disk request => rfl
  | incrby counter amount =>
    show entryOf id (serverAnswer (machine.server calls) _ state).2 = entryOf id state
    cases machine.server calls with
    | completes => rfl
    | fails code applied => cases applied <;> rfl
  | set record =>
    intro hreply
    rw [world_set] at hreply ⊢
    obtain rfl : record.id = id := h
    cases hserver : machine.server calls with
    | completes => exact ⟨calls, hcalls, setEx_self _ _ _ _ _⟩
    | fails code applied =>
      rw [hserver] at hreply
      cases hreply

theorem others_world (id other : String) (calls : ℕ) (request : Call) (state : State)
    (hne : id ≠ other) (h : Allowed other request) :
    entryOf id state = entryOf id (machine.world calls request state).2 := by
  cases request with
  | disk request => rfl
  | incrby counter amount =>
    show entryOf id state = entryOf id (serverAnswer (machine.server calls) _ state).2
    cases machine.server calls with
    | completes => rfl
    | fails code applied => cases applied <;> rfl
  | set record =>
    obtain rfl : record.id = other := h
    have hkey : keyFor id ≠ keyFor record.id := fun heq ↦ hne (keyFor_injective heq)
    have hkept : entryOf id { state with
        records := Repository.save state.records (machine.now calls) record } = entryOf id state :=
      setEx_of_ne _ _ _ _ hkey
    rw [world_set]
    cases machine.server calls with
    | completes => exact hkept.symm
    | fails code applied =>
      cases applied with
      | false => rfl
      | true => exact hkept.symm

variable {machine}

/-- Saving a record. -/
theorem safe_saveRecord (record : FileRecord) (entry : Option (Entry (Option Json))) :
    Safe Eq (May machine limit) (fun outcome after ↦
      outcome = .ok () → ∃ calls < limit, after = savedEntry record (machine.now calls)) entry
      (saveRecord record) := by
  show Safe Eq (May machine limit) _ entry (.call (Call.set record) .finish)
  refine .call fun now reply after _ hmay ↦ .finish ?_
  rintro later rfl hreply
  exact hmay hreply

/-- A counter leaves the entry. -/
theorem safe_incrementCounter (deps : Deps) (counter : String) (amount : ℕ)
    (entry : Option (Entry (Option Json))) :
    Safe Eq (May machine limit) (fun _ after ↦ after = entry) entry
      (incrementCounter deps counter amount) := by
  have hcalls : (incrementCounter deps counter amount).AllCalls
      fun request ↦ request = .incrby counter amount := by
    rw [incrementCounter]
    split
    · exact Program.allCalls_handle (Program.allCalls_perform rfl) fun _ ↦ .finish _
    · exact .finish _
  refine safe_of_kept (fun after ↦ after = entry) ?_ ?_ hcalls rfl
  · rintro view later rfl hview
    exact hview
  · rintro request now reply after rfl hnow hmay
    exact Eq.trans hmay hnow

theorem safe_recordUpload (deps : Deps) (record : FileRecord)
    (entry : Option (Entry (Option Json))) :
    Safe Eq (May machine limit) (fun outcome after ↦ ∀ body, outcome = .ok (.created body) →
        body = createdFrom record ∧ ∃ calls < limit, after = savedEntry record (machine.now calls))
      entry
      (recordUpload deps record) := by
  have hrefl : ∀ view : Option (Entry (Option Json)), view = view := fun _ ↦ rfl
  refine safe_bind hrefl (safe_saveRecord record entry) (fun _ saved hsaved ↦ ?_)
    fun fault _ _ _ h ↦ by cases h
  refine safe_bind hrefl (safe_incrementCounter deps _ _ saved) (fun _ counted hcounted ↦ ?_)
    fun fault _ _ _ h ↦ by cases h
  refine safe_bind hrefl (safe_incrementCounter deps _ _ counted) (fun _ after hafter ↦ ?_)
    fun fault _ _ _ h ↦ by cases h
  refine .finish fun later hlater body hbody ↦ ?_
  cases hbody
  obtain ⟨calls, hbound, hentry⟩ := hsaved rfl
  exact ⟨rfl, calls, hbound, by rw [← hlater, hafter, hcounted, hentry]⟩

/-- Whatever its calls come to, an upload tells the truth about its entry. -/
theorem safe_postUpload (deps : Deps) (asked : Asked) (entry : Option (Entry (Option Json))) :
    Safe Eq (May machine limit) (Tells machine limit asked) entry
      (postUpload deps asked.runtime (some asked.file)) := by
  have hrefl : ∀ view : Option (Entry (Option Json)), view = view := fun _ ↦ rfl
  have hcommit : Safe Eq (May machine limit) (Tells machine limit asked) entry
      (commit deps asked.runtime asked.file) := by
    rw [commit_eq]
    refine safe_bind hrefl (safe_true entry _) (fun stored later _ ↦ ?_)
      fun fault _ _ _ h ↦ by cases h
    refine (safe_recordUpload deps (recordOf asked.runtime asked.file stored) later).weaken
      fun outcome after hafter body hbody ↦ ?_
    obtain ⟨hcreated, hentry⟩ := hafter body hbody
    exact ⟨_, hcreated, rfl, hentry⟩
  refine safe_handle hrefl hcommit (fun _ _ h ↦ h) fun fault later _ ↦ ?_
  refine safe_bind hrefl (safe_true later _) (fun _ after _ ↦ ?_) fun fault _ _ _ h ↦ by cases h
  exact .finish fun _ _ body hbody ↦ by cases hbody

theorem allCalls_onDisk {Result : Type} (id : String) (program : Foundation.FileTree.Fs Result) :
    (onDisk program).AllCalls (Allowed id) := by
  induction program with
  | finish outcome => exact .finish _
  | call request next ih => exact .call trivial fun _ ↦ ih _

theorem allCalls_postUpload (deps : Deps) (asked : Asked) :
    (postUpload deps asked.runtime (some asked.file)).AllCalls
      (Allowed asked.runtime.recordId) := by
  have hcount : ∀ counter amount, (incrementCounter deps counter amount).AllCalls
      (Allowed asked.runtime.recordId) := by
    intro counter amount
    rw [incrementCounter]
    split
    · exact Program.allCalls_handle (Program.allCalls_perform trivial) fun _ ↦ .finish _
    · exact .finish _
  refine Program.allCalls_handle ?_ fun fault ↦ ?_
  · rw [commit_eq]
    refine Program.allCalls_bind (allCalls_onDisk _ _) fun stored ↦ ?_
    refine Program.allCalls_bind (Program.allCalls_perform rfl) fun _ ↦ ?_
    exact Program.allCalls_bind (hcount _ _) fun _ ↦
      Program.allCalls_bind (hcount _ _) fun _ ↦ .finish _
  · exact Program.allCalls_bind (Program.allCalls_handle (allCalls_onDisk _ _) fun _ ↦ .finish _)
      fun _ ↦ .finish _

/-! ### Reading -/

/-- The requests of a run take distinct ids. -/
def DistinctIds (actions : List (Action Asked)) : Prop :=
  ((actions.filterMap started).map fun asked ↦ asked.runtime.recordId).Nodup

theorem get_of_savedEntry {records : Records} {record : FileRecord} {savedAt now : ℕ}
    (hentry : records (keyFor record.id) = savedEntry record savedAt)
    (hsize : record.size ≤ maxSafeInteger) (hnow : now ≤ savedAt + defaultTtlSeconds * 1000) :
    Repository.get records now record.id = .ok (some record) := by
  have hsame : Repository.get records now record.id =
      Repository.get (Repository.save records savedAt record) now record.id := by
    have hsaved : Repository.save records savedAt record (keyFor record.id) =
        records (keyFor record.id) := (setEx_self _ _ _ _ _).trans hentry.symm
    rw [Repository.get, Repository.get, Foundation.ExpiringStore.get,
      Foundation.ExpiringStore.get, live, live, hsaved]
  rw [hsame, get_save records hsize hnow]

theorem get_of_expired {records : Records} {record : FileRecord} {savedAt now : ℕ}
    (hentry : records (keyFor record.id) = savedEntry record savedAt)
    (hnow : ¬now ≤ savedAt + defaultTtlSeconds * 1000) :
    Repository.get records now record.id = .ok none := by
  have hlive : live records now (keyFor record.id) = none := by
    refine Option.eq_none_iff_forall_ne_some.mpr fun entry hlive ↦ ?_
    obtain ⟨hstored, halive⟩ := live_eq_some_iff.mp hlive
    rw [hentry] at hstored
    obtain rfl := Option.some.inj hstored
    exact hnow (halive _ rfl)
  rw [Repository.get, Foundation.ExpiringStore.get, hlive]
  rfl

/-- The answer to `GET /uploads/:id` for an upload that expires at a moment. -/
def readsAs (body : Created) (expiresAt now : ℕ) : Api.Answers.Answer :=
  if now ≤ expiresAt then { status := 200, body := createdJson body }
  else .problem 404 "not_found" "No upload with that id (it may have expired)"

/-- In every run of uploads beside each other, whatever fails and whatever is lost: what an upload
has been answered with is what `GET /uploads/:id` answers, up to a day after one of the calls of the
run, and from then on it answers that there is none. -/
theorem created_is_read (deps : Deps) (machine : Machine) (production : Bool) {state : State}
    {actions : List (Action Asked)} {after : Pool Call Reply NodeError Answer State}
    (hrun : (pool machine.world
      (fun asked : Asked ↦ postUpload deps asked.runtime (some asked.file)) state).run actions =
        some after)
    (hdistinct : DistinctIds actions) {body : Created}
    (hbody : .finish (.ok (.created body)) ∈ after.running)
    (hsize : body.size ≤ maxSafeInteger) :
    ∃ calls < after.calls, ∀ now, getUpload production after.state.records now body.id =
      readsAs body (machine.now calls + defaultTtlSeconds * 1000) now := by
  obtain ⟨index, hindex⟩ := List.getElem?_of_mem hbody
  obtain ⟨_, -, htells⟩ := pool_safe (fun asked : Asked ↦ asked.runtime.recordId) entryOf
    Allowed Eq (May machine after.calls) (Tells machine after.calls) (fun _ ↦ rfl)
    (fun _ _ _ ↦ Eq.trans) (may_world machine) (others_world machine) (allCalls_postUpload deps)
    (safe_postUpload deps) hrun hdistinct hindex
  obtain ⟨record, rfl, hid, calls, hcalls, hentry⟩ := htells body rfl
  rw [← hid] at hentry
  refine ⟨calls, hcalls, fun now ↦ ?_⟩
  rw [getUpload, readsAs]
  split_ifs with hnow
  · have hread : Repository.get after.state.records now (createdFrom record).id =
        .ok (some record) := get_of_savedEntry hentry hsize hnow
    rw [hread]
  · have hread : Repository.get after.state.records now (createdFrom record).id = .ok none :=
      get_of_expired hentry hnow
    rw [hread]

/-- Two uploads, of which the second waits while the first goes through. -/
def twoUploads : List (Action Asked) := [
  .start { runtime := csvRuntime, file := stagedCsv },
  .start { runtime := { csvRuntime with recordId := "s", keyId := "l" }, file := stagedCsv },
  .advance 0, .advance 0, .advance 0, .advance 0, .advance 0, .advance 0]

/-- What a program has answered. -/
def answerOf : Handler Answer → Option Created
  | .finish (.ok (.created body)) => some body
  | _ => none

theorem eq_of_answerOf {program : Handler Answer} {body : Created}
    (h : answerOf program = some body) : program = .finish (.ok (.created body)) := by
  unfold answerOf at h
  split at h
  · rw [Option.some.inj h]
  · cases h

theorem created_is_read_twoUploads :
    ∃ after body, (pool ({} : Machine).world
        (fun asked : Asked ↦ postUpload csvDeps asked.runtime (some asked.file))
        beforeUpload).run twoUploads = some after ∧ body.id = "r" ∧
      ∃ calls < after.calls, ∀ now, getUpload true after.state.records now body.id =
        readsAs body (({} : Machine).now calls + defaultTtlSeconds * 1000) now := by
  have hrun : (((pool ({} : Machine).world
      (fun asked : Asked ↦ postUpload csvDeps asked.runtime (some asked.file))
      beforeUpload).run twoUploads).bind fun after ↦ (after.running.head?.bind answerOf).map
        fun body ↦ (body.id, body.size)) = some ("r", 2) := by
    decide +kernel
  obtain ⟨after, hafter, hhead⟩ := Option.bind_eq_some_iff.mp hrun
  obtain ⟨body, hbody, hfields⟩ := Option.map_eq_some_iff.mp hhead
  obtain ⟨program, hprogram, hanswer⟩ := Option.bind_eq_some_iff.mp hbody
  have hsize : body.size = 2 := congrArg Prod.snd hfields
  have hmem : .finish (.ok (.created body)) ∈ after.running := by
    rw [← eq_of_answerOf hanswer]
    exact List.mem_of_mem_head? hprogram
  have hdistinct : DistinctIds twoUploads := by
    show ["r", "s"].Nodup
    decide
  have hsmall : body.size ≤ maxSafeInteger := by
    rw [hsize]
    decide
  exact ⟨after, body, hafter, congrArg Prod.fst hfields,
    created_is_read csvDeps {} true hafter hdistinct hmem hsmall⟩

end FileForge.Files.UploadReads
