import FileForge.Foundation.Execution
import FileForge.Shared.Contract

/-!
# The page

`App` of `frontend/src/App.tsx` with its hook `useJobProgress`: the state of the component, the
handlers up to and after their awaits, and the effect that opens the event source of a job. The user
acts where a control is enabled. Responses of `uploadFile` and `createJob` arrive in any order and
succeed or fail; the server gives every file and every job an id of its own.

React runs the effect of a render before it renders again (`flush`), and otherwise at any moment.

The promise is that what is shown of a job belongs to the file that is shown. `shownFits_iff_meets`
says which responses break it: the picker stays enabled during an upload, and the drop zone stays
enabled until the response of `createJob` is there.
-/

set_option autoImplicit false
set_option relaxedAutoImplicit false

namespace FileForge.Frontend.App

open Foundation.JsonValue Foundation.Execution Foundation.Execution.System Shared.Contract

/-! ### The component -/

/-- `JobProgress`. The state is `none` for `idle`. -/
structure JobProgress where
  state : Option EventState
  progress : ℚ := 0
  outputs : List String := []
  error : Option String := none

/-- `IDLE`. -/
def idle : JobProgress := { state := none }

/-- What is shown of a new job. -/
def startClean : JobProgress := { state := some .queued }

def outputsFrom (result : Option Json) : List String :=
  match result.bind (Json.get "outputs") with
  | some (.array elements) => elements.filterMap Json.asString
  | _ => []

/-- The files and the jobs that the server knows: their ids, and the file of each job. -/
structure Server where
  files : List String := []
  jobs : List (String × String) := []

structure State where
  upload : Option UploadResponse := none
  uploading : Bool := false
  jobId : Option String := none
  error : Option String := none
  progress : JobProgress := idle
  /-- The job for which the effect ran last. -/
  watched : Option String := none
  /-- The event source of that job is open. -/
  listening : Bool := false
  /-- The `uploadFile` calls without a response. -/
  sending : ℕ := 0
  /-- The `createJob` calls without a response, by the ids of their files. -/
  creating : List String := []
  server : Server := {}

/-- `running`. -/
def State.running (state : State) : Bool :=
  state.progress.state = some .queued ∨ state.progress.state = some .processing

/-- The operations that the picker offers, when it is shown. -/
def State.offered (state : State) : List Operation :=
  ((state.upload.bind fun upload ↦ kindForMimeType upload.mimeType).map operationsByKind).getD []

/-- The effect of `useJobProgress`, when `jobId` has changed. -/
def State.flush (state : State) : State :=
  if state.jobId = state.watched then state
  else match state.jobId with
    | none => { state with progress := idle, watched := none, listening := false }
    | some id => { state with progress := startClean, watched := some id, listening := true }

/-- `handleFile`, up to the request. -/
def State.handleFile (state : State) : State :=
  { state.flush with uploading := true, error := none, jobId := none, sending := state.sending + 1 }

/-- `handleFile` goes on. An error carries the message of an `ApiRequestError`. -/
def State.onUploaded (state : State) : Except (Option String) UploadResponse → State
  | .ok upload => { state.flush with
      upload := some upload, uploading := false, sending := state.sending - 1
      server := { state.server with files := upload.id :: state.server.files } }
  | .error message => { state.flush with
      error := some (message.getD "Upload failed"), upload := none, uploading := false
      sending := state.sending - 1 }

/-- `handleRun`, up to the request. -/
def State.handleRun (state : State) (fileId : String) : State :=
  { state with error := none, creating := state.creating ++ [fileId] }

/-- `handleRun` goes on. -/
def State.onCreated (state : State) (index : ℕ) (fileId : String) :
    Except (Option String) String → State
  | .ok id => { state.flush with
      jobId := some id, creating := state.creating.eraseIdx index
      server := { state.server with jobs := (id, fileId) :: state.server.jobs } }
  | .error message => { state with
      error := some (message.getD "Could not start the job")
      creating := state.creating.eraseIdx index }

/-- `source.onmessage`, for a valid event. -/
def State.onMessage (state : State) (event : JobEvent) : State :=
  State.flush { state with
    progress :=
      { state := some event.state, progress := event.progress, outputs := outputsFrom event.result
        error := event.error }
    listening := decide (¬ event.state.Terminal) }

/-- `source.onerror`, when the browser has given up. -/
def State.onLost (state : State) : State :=
  let settled := state.progress.state = some .completed ∨ state.progress.state = some .failed
  State.flush { state with
    progress := if settled then state.progress
      else { state.progress with error := some "Lost connection to the server" }
    listening := false }

inductive Action
  /-- The user drops or chooses a file. -/
  | choose
  /-- A response to `uploadFile`. -/
  | uploaded (result : Except (Option String) UploadResponse)
  /-- The user clicks Run. -/
  | run (operation : Operation)
  /-- The response to a `createJob`. -/
  | created (index : ℕ) (result : Except (Option String) String)
  /-- An event of the job that is watched. -/
  | message (event : JobEvent)
  | lost
  /-- The effect runs. -/
  | effect

/-- The response can come from the server: an id is a new one. -/
def Server.CanUpload (server : Server) : Except (Option String) UploadResponse → Prop
  | .ok upload => upload.id ∉ server.files
  | .error _ => True

def Server.CanCreate (server : Server) : Except (Option String) String → Prop
  | .ok id => server.jobs.lookup id = none
  | .error _ => True

instance (server : Server) : DecidablePred server.CanUpload
  | .ok upload => inferInstanceAs (Decidable (upload.id ∉ server.files))
  | .error _ => .isTrue trivial

instance (server : Server) : DecidablePred server.CanCreate
  | .ok id => inferInstanceAs (Decidable (server.jobs.lookup id = none))
  | .error _ => .isTrue trivial

def step (state : State) : Action → Option State
  | .choose =>
    -- `disabled` of the drop zone
    if state.uploading || state.running then none else some state.handleFile
  | .uploaded result =>
    if 0 < state.sending ∧ state.server.CanUpload result then some (state.onUploaded result)
    else none
  | .run operation =>
    match state.upload with
    | some upload =>
      -- `disabled` of the picker
      if operation ∈ state.offered ∧ state.running = false then some (state.handleRun upload.id)
      else none
    | none => none
  | .created index result =>
    match state.creating[index]? with
    | some fileId =>
      if state.server.CanCreate result then some (state.onCreated index fileId result) else none
    | none => none
  | .message event => if state.listening then some (state.onMessage event) else none
  | .lost => if state.listening then some state.onLost else none
  | .effect => some state.flush

/-- The page before the first file. -/
def page : System State Action where
  start := {}
  step := step

/-! ### The promise -/

/-- The job was created for the file that is shown. -/
def State.Belongs (state : State) (id : String) : Prop :=
  ∃ upload, state.upload = some upload ∧ state.server.jobs.lookup id = some upload.id

/-- The job, and the progress and result on the screen, belong to the file that is shown. -/
structure ShownFits (state : State) : Prop where
  job : ∀ id, state.jobId = some id → state.Belongs id
  result : state.progress ≠ idle → ∃ id, state.watched = some id ∧ state.Belongs id

/-- A step that keeps the promise: an upload is answered while no job is shown, and a job is created
for the file that is still shown. -/
def Fits (state : State) : Action → Prop
  | .uploaded _ => state.jobId = none
  | .created index (.ok _) => ∀ fileId ∈ state.creating[index]?,
      ∃ upload, state.upload = some upload ∧ upload.id = fileId
  | _ => True

/-! ### The steps -/

/-- What a step can do, with the state in which it can be taken. -/
inductive Step (state : State) : Action → State → Prop
  | choose (huploading : state.uploading = false) (hrunning : state.running = false) :
    Step state .choose state.handleFile
  | uploaded {result : Except (Option String) UploadResponse} (hsending : 0 < state.sending)
      (hresult : state.server.CanUpload result) :
    Step state (.uploaded result) (state.onUploaded result)
  | run {operation : Operation} {upload : UploadResponse} (hupload : state.upload = some upload)
      (hoffered : operation ∈ state.offered) (hrunning : state.running = false) :
    Step state (.run operation) (state.handleRun upload.id)
  | created {index : ℕ} {fileId : String} {result : Except (Option String) String}
      (hfileId : state.creating[index]? = some fileId) (hresult : state.server.CanCreate result) :
    Step state (.created index result) (state.onCreated index fileId result)
  | message (hlistening : state.listening = true) (event : JobEvent) :
    Step state (.message event) (state.onMessage event)
  | lost (hlistening : state.listening = true) : Step state .lost state.onLost
  | effect : Step state .effect state.flush

/-- Every step of the page is one of these. -/
theorem step_cases {state after : State} {action : Action} (h : step state action = some after) :
    Step state action after := by
  cases action <;> simp only [step] at h
  case choose =>
    split_ifs at h with hdisabled
    rw [Bool.not_eq_true, Bool.or_eq_false_iff] at hdisabled
    obtain rfl := Option.some.inj h
    exact .choose hdisabled.1 hdisabled.2
  case uploaded result =>
    split_ifs at h with hguard
    obtain rfl := Option.some.inj h
    exact .uploaded hguard.1 hguard.2
  case run operation =>
    split at h
    · rename_i hupload
      split_ifs at h with hguard
      obtain rfl := Option.some.inj h
      exact .run hupload hguard.1 hguard.2
    · cases h
  case created index result =>
    split at h
    · rename_i hfileId
      split_ifs at h with hresult
      obtain rfl := Option.some.inj h
      exact .created hfileId hresult
    · cases h
  case message event =>
    split_ifs at h with hlistening
    obtain rfl := Option.some.inj h
    exact .message hlistening event
  case lost =>
    split_ifs at h with hlistening
    obtain rfl := Option.some.inj h
    exact .lost hlistening
  case effect =>
    obtain rfl := Option.some.inj h
    exact .effect

/-! ### What holds in every state -/

structure Accounted (state : State) : Prop where
  shownFile : ∀ upload, state.upload = some upload → upload.id ∈ state.server.files
  jobFiles : ∀ id fileId, state.server.jobs.lookup id = some fileId → fileId ∈ state.server.files
  requested : ∀ fileId ∈ state.creating, fileId ∈ state.server.files
  watching : state.watched = none ↔ state.progress.state = none
  quiet : state.progress.state = none → state.progress = idle
  listening : state.listening = true → state.watched ≠ none

theorem accounted_start : Accounted page.start where
  shownFile := nofun
  jobFiles := nofun
  requested := nofun
  watching := iff_of_true rfl rfl
  quiet := fun _ ↦ rfl
  listening := nofun

section Flush

variable (state : State)

theorem flush_cases : (state.jobId = state.watched ∧ state.flush = state) ∨
    (state.jobId = none ∧
      state.flush = { state with progress := idle, watched := none, listening := false }) ∨
    ∃ id, state.jobId = some id ∧ state.flush =
      { state with progress := startClean, watched := some id, listening := true } := by
  unfold State.flush
  split_ifs with hsame
  · exact Or.inl ⟨hsame, rfl⟩
  · cases hjobId : state.jobId with
    | none => exact Or.inr (Or.inl ⟨rfl, rfl⟩)
    | some id => exact Or.inr (Or.inr ⟨id, rfl, rfl⟩)

@[simp] theorem flush_jobId : state.flush.jobId = state.jobId := by
  rcases flush_cases state with ⟨-, h⟩ | ⟨-, h⟩ | ⟨id, -, h⟩ <;> rw [h]

@[simp] theorem flush_upload : state.flush.upload = state.upload := by
  rcases flush_cases state with ⟨-, h⟩ | ⟨-, h⟩ | ⟨id, -, h⟩ <;> rw [h]

@[simp] theorem flush_server : state.flush.server = state.server := by
  rcases flush_cases state with ⟨-, h⟩ | ⟨-, h⟩ | ⟨id, -, h⟩ <;> rw [h]

@[simp] theorem flush_creating : state.flush.creating = state.creating := by
  rcases flush_cases state with ⟨-, h⟩ | ⟨-, h⟩ | ⟨id, -, h⟩ <;> rw [h]

/-- After its effect the component watches the job that it shows. -/
@[simp] theorem flush_watched : state.flush.watched = state.jobId := by
  rcases flush_cases state with ⟨hsame, h⟩ | ⟨hnone, h⟩ | ⟨id, hsome, h⟩
  · rw [h, hsame]
  · rw [h, hnone]
  · rw [h, hsome]

end Flush

theorem Accounted.flush {state : State} (h : Accounted state) : Accounted state.flush := by
  rcases flush_cases state with ⟨-, hflush⟩ | ⟨-, hflush⟩ | ⟨id, -, hflush⟩
  · rwa [hflush]
  · rw [hflush]
    exact ⟨h.shownFile, h.jobFiles, h.requested, iff_of_true rfl rfl, fun _ ↦ rfl, nofun⟩
  · rw [hflush]
    exact ⟨h.shownFile, h.jobFiles, h.requested, iff_of_false nofun nofun, nofun, fun _ ↦ nofun⟩

/-- What is shown of a job is not idle. -/
theorem Accounted.watching_iff {state : State} (h : Accounted state) :
    state.watched = none ↔ state.progress = idle := by
  rw [h.watching]
  exact ⟨h.quiet, fun hidle ↦ by rw [hidle]; rfl⟩

/-- The event source tells of the job that is watched. -/
theorem Accounted.hear {state : State} (h : Accounted state) (hlistening : state.listening = true)
    {progress : JobProgress} (hprogress : progress.state ≠ none) (listening : Bool) :
    Accounted (State.flush { state with progress := progress, listening := listening }) := by
  have hwatched := h.listening hlistening
  exact Accounted.flush ⟨h.shownFile, h.jobFiles, h.requested, iff_of_false hwatched hprogress,
    fun hnone ↦ absurd hnone hprogress, fun _ ↦ hwatched⟩

/-- What is left when the event source has given up. -/
theorem Accounted.onLost_ne {state : State} (h : Accounted state)
    (hlistening : state.listening = true) :
    (if state.progress.state = some .completed ∨ state.progress.state = some .failed
      then state.progress
      else { state.progress with error := some "Lost connection to the server" }).state ≠ none := by
  have hstate : state.progress.state ≠ none := fun hnone ↦
    h.listening hlistening (h.watching.mpr hnone)
  split_ifs <;> exact hstate

/-- A step that renders after the effect: the jobs to look at are the one that is shown next and the
one that was shown. -/
theorem Accounted.shownFits_iff {state after : State} (h : Accounted state)
    (hprogress : after.progress = state.flush.progress)
    (hwatched : after.watched = state.flush.watched) :
    ShownFits after ↔ (∀ id, after.jobId = some id → after.Belongs id) ∧
      ∀ id, state.jobId = some id → after.Belongs id := by
  rw [flush_watched] at hwatched
  have hidle : state.jobId = none ↔ after.progress = idle := by
    rw [hprogress, ← h.flush.watching_iff, flush_watched]
  constructor
  · rintro ⟨hjob, hresult⟩
    refine ⟨hjob, fun id hid ↦ ?_⟩
    obtain ⟨found, hfound, hbelongs⟩ := hresult fun hquiet ↦ by
      rw [hidle.mpr hquiet] at hid
      cases hid
    rw [hwatched, hid, Option.some.injEq] at hfound
    exact hfound ▸ hbelongs
  · rintro ⟨hjob, hbefore⟩
    refine ⟨hjob, fun hresult ↦ ?_⟩
    obtain ⟨id, hid⟩ := Option.ne_none_iff_exists'.mp fun hnone ↦ hresult (hidle.mp hnone)
    exact ⟨id, hwatched.trans hid, hbefore id hid⟩

/-! ### One step -/

section Steps

variable {state after : State}

theorem Accounted.step (h : Accounted state) {action : Action} (hstep : Step state action after) :
    Accounted after := by
  cases hstep with
  | choose =>
    exact ⟨h.flush.shownFile, h.flush.jobFiles, h.flush.requested, h.flush.watching, h.flush.quiet,
      h.flush.listening⟩
  | @uploaded result =>
    cases result with
    | ok upload =>
      refine ⟨?_, ?_, ?_, h.flush.watching, h.flush.quiet, h.flush.listening⟩
      · intro found hfound
        rw [← Option.some.inj hfound]
        exact List.mem_cons_self
      · intro id fileId hlookup
        have hold : state.server.jobs.lookup id = some fileId := by
          simpa [State.onUploaded] using hlookup
        exact List.mem_cons_of_mem _ (h.jobFiles id fileId hold)
      · intro fileId hmem
        have hold : fileId ∈ state.creating := by
          simpa [State.onUploaded] using hmem
        exact List.mem_cons_of_mem _ (h.requested fileId hold)
    | error message =>
      exact ⟨nofun, h.flush.jobFiles, h.flush.requested, h.flush.watching, h.flush.quiet,
        h.flush.listening⟩
  | run hupload =>
    refine ⟨h.shownFile, h.jobFiles, fun fileId hmem ↦ ?_, h.watching, h.quiet, h.listening⟩
    rcases List.mem_append.mp hmem with hold | hnew
    · exact h.requested fileId hold
    · rw [List.mem_singleton.mp hnew]
      exact h.shownFile _ hupload
  | @created index fileId result hfileId =>
    have hmem := List.mem_of_getElem? hfileId
    have hrest : ∀ other ∈ state.creating.eraseIdx index, other ∈ state.server.files :=
      fun other hother ↦ h.requested other (List.mem_of_mem_eraseIdx hother)
    cases result with
    | ok id =>
      refine ⟨?_, ?_, ?_, h.flush.watching, h.flush.quiet, h.flush.listening⟩
      · simpa [State.onCreated] using h.shownFile
      · intro found foundFile hlookup
        have hcons : ((id, fileId) :: state.server.jobs).lookup found = some foundFile := by
          simpa [State.onCreated] using hlookup
        rw [List.lookup_cons] at hcons
        show foundFile ∈ state.server.files
        split at hcons
        · rw [← Option.some.inj hcons]
          exact h.requested fileId hmem
        · exact h.jobFiles found foundFile hcons
      · simpa [State.onCreated] using hrest
    | error message =>
      exact ⟨h.shownFile, h.jobFiles, hrest, h.watching, h.quiet, h.listening⟩
  | message hlistening event => exact h.hear hlistening (Option.some_ne_none _) _
  | lost hlistening => exact h.hear hlistening (h.onLost_ne hlistening) _
  | effect => exact h.flush

/-- A step that renders nothing new. -/
theorem ShownFits.of_same (h : ShownFits state) (hupload : after.upload = state.upload)
    (hserver : after.server = state.server) (hjobId : after.jobId = state.jobId)
    (hprogress : after.progress = state.progress) (hwatched : after.watched = state.watched) :
    ShownFits after := by
  have hbelongs : ∀ id, state.Belongs id → after.Belongs id := by
    intro id hid
    rw [State.Belongs, hupload, hserver]
    exact hid
  refine ⟨fun id hid ↦ hbelongs id (h.job id (hjobId.symm.trans hid)), fun hresult ↦ ?_⟩
  rw [hprogress] at hresult
  obtain ⟨id, hid, hfits⟩ := h.result hresult
  exact ⟨id, hwatched.trans hid, hbelongs id hfits⟩

/-- The effect runs. -/
theorem ShownFits.flush (h : ShownFits state) (haccounted : Accounted state) :
    ShownFits state.flush := by
  have hbelongs : ∀ id, state.jobId = some id → state.flush.Belongs id := by
    intro id hid
    rw [State.Belongs, flush_upload, flush_server]
    exact h.job id hid
  refine (haccounted.shownFits_iff rfl rfl).mpr ⟨?_, hbelongs⟩
  rw [flush_jobId]
  exact hbelongs

/-- The event source tells of the job that is watched. -/
theorem ShownFits.hear (h : ShownFits state) (haccounted : Accounted state)
    (hlistening : state.listening = true) {progress : JobProgress}
    (hprogress : progress.state ≠ none) (listening : Bool) :
    ShownFits (State.flush { state with progress := progress, listening := listening }) := by
  have hwatched := haccounted.listening hlistening
  have hresult : state.progress ≠ idle := fun hidle ↦
    hwatched (haccounted.watching_iff.mpr hidle)
  refine ShownFits.flush ⟨h.job, fun _ ↦ h.result hresult⟩ ⟨haccounted.shownFile,
    haccounted.jobFiles, haccounted.requested, iff_of_false hwatched hprogress,
    fun hnone ↦ absurd hnone hprogress, fun _ ↦ hwatched⟩

theorem uploaded_spec (haccounted : Accounted state)
    {result : Except (Option String) UploadResponse} (hresult : state.server.CanUpload result) :
    ShownFits (state.onUploaded result) ↔ Fits state (.uploaded result) := by
  -- The file is a new one, or none is shown.
  have hnone : ∀ id, ¬ (state.onUploaded result).Belongs id := by
    rintro id ⟨upload, hupload, hlookup⟩
    cases result with
    | ok found =>
      rw [← Option.some.inj hupload] at hlookup
      have hold : state.server.jobs.lookup id = some found.id := by
        simpa [State.onUploaded] using hlookup
      exact hresult (haccounted.jobFiles id found.id hold)
    | error message => cases hupload
  have hsame : (state.onUploaded result).progress = state.flush.progress ∧
      (state.onUploaded result).watched = state.flush.watched ∧
        (state.onUploaded result).jobId = state.jobId := by
    cases result <;> simp [State.onUploaded]
  rw [haccounted.shownFits_iff hsame.1 hsame.2.1, hsame.2.2, and_self_iff]
  constructor
  · intro hbelongs
    refine Option.eq_none_iff_forall_ne_some.mpr fun id hid ↦ hnone id (hbelongs id hid)
  · intro hjobId id hid
    rw [show state.jobId = none from hjobId] at hid
    cases hid

theorem created_spec (h : ShownFits state) (haccounted : Accounted state) {index : ℕ}
    {fileId : String} {result : Except (Option String) String}
    (hfileId : state.creating[index]? = some fileId) (hresult : state.server.CanCreate result) :
    ShownFits (state.onCreated index fileId result) ↔ Fits state (.created index result) := by
  cases result with
  | error message => exact iff_of_true (h.of_same rfl rfl rfl rfl rfl) trivial
  | ok id =>
    have hbelongs : ∀ found, (state.onCreated index fileId (.ok id)).Belongs found ↔
        ∃ upload, state.upload = some upload ∧
          ((id, fileId) :: state.server.jobs).lookup found = some upload.id := by
      intro found
      simp [State.Belongs, State.onCreated]
    have hnew : (state.onCreated index fileId (.ok id)).Belongs id ↔
        Fits state (.created index (.ok id)) := by
      rw [hbelongs]
      simp only [Fits, hfileId, Option.mem_def, Option.some.injEq, forall_eq',
        List.lookup_cons_self, eq_comm]
    have hold : ∀ found, state.jobId = some found →
        (state.onCreated index fileId (.ok id)).Belongs found := by
      intro found hfound
      obtain ⟨upload, hupload, hlookup⟩ := h.job found hfound
      have hne : found ≠ id := by
        rintro rfl
        rw [show state.server.jobs.lookup found = none from hresult] at hlookup
        cases hlookup
      refine (hbelongs found).mpr ⟨upload, hupload, ?_⟩
      rw [List.lookup_cons, beq_false_of_ne hne]
      exact hlookup
    have hshown : ShownFits (state.onCreated index fileId (.ok id)) ↔ _ :=
      haccounted.shownFits_iff rfl rfl
    rw [hshown, and_iff_left hold, ← hnew]
    constructor
    · exact fun hjob ↦ hjob id rfl
    · intro hid found hfound
      exact Option.some.inj hfound ▸ hid

/-- The step lemma: a step keeps the promise exactly when it fits. -/
theorem step_spec (h : ShownFits state) (haccounted : Accounted state) {action : Action}
    (hstep : Step state action after) : ShownFits after ↔ Fits state action := by
  cases hstep with
  | choose =>
    have hshown : ShownFits state.handleFile ↔ _ := haccounted.shownFits_iff rfl rfl
    have hnone : ∀ id, state.handleFile.jobId = some id → state.handleFile.Belongs id := by
      intro id hid
      cases hid
    refine iff_of_true (hshown.mpr ⟨hnone, fun id hid ↦ ?_⟩) trivial
    obtain ⟨upload, hupload, hlookup⟩ := h.job id hid
    exact ⟨upload, by simpa [State.handleFile] using hupload,
      by simpa [State.handleFile] using hlookup⟩
  | uploaded _ hresult => exact uploaded_spec haccounted hresult
  | run => exact iff_of_true (h.of_same rfl rfl rfl rfl rfl) trivial
  | created hfileId hresult => exact created_spec h haccounted hfileId hresult
  | message hlistening event =>
    exact iff_of_true (h.hear haccounted hlistening (Option.some_ne_none _) _) trivial
  | lost hlistening =>
    exact iff_of_true (h.hear haccounted hlistening (haccounted.onLost_ne hlistening) _) trivial
  | effect => exact iff_of_true (h.flush haccounted) trivial

end Steps

/-! ### Whole runs -/

theorem shownFits_start : ShownFits page.start where
  job := nofun
  result := fun hresult ↦ absurd rfl hresult

/-- Whatever is shown of a job belongs to the file that is shown, in every state of a run, exactly
when every step fits. -/
theorem always_shownFits_iff (actions : List Action) (state : State)
    (hrun : page.run actions = some state) :
    page.Always ShownFits actions ↔ page.Meets Fits actions :=
  always_iff_meets Accounted accounted_start shownFits_start
    (fun _ _ _ haccounted hstep ↦ haccounted.step (step_cases hstep))
    (fun _ _ _ haccounted h hstep ↦ step_spec h haccounted (step_cases hstep)) hrun

def firstFile : UploadResponse := { id := "a", mimeType := "image/png" }

def secondFile : UploadResponse := { id := "b", mimeType := "text/csv" }

/-- A file, and its job up to the result. -/
def oneJob : List Action :=
  [.choose, .uploaded (.ok firstFile), .run .imageThumbnail, .created 0 (.ok "1"), .effect,
    .message { jobId := "1", state := .completed, progress := 100 }]

theorem always_shownFits_oneJob :
    ∃ state, page.run oneJob = some state ∧ page.Always ShownFits oneJob := by
  have hchosen : page.Meets Fits ([] ++ [.choose]) := (meets_nil _ _).concat fun _ _ ↦ trivial
  have huploaded : page.Meets Fits ([.choose] ++ [.uploaded (.ok firstFile)]) := by
    refine hchosen.concat fun state hstate ↦ ?_
    rw [← Option.some.inj hstate]
    rfl
  have hrun : page.Meets Fits
      ([.choose, .uploaded (.ok firstFile)] ++ [.run .imageThumbnail]) :=
    huploaded.concat fun _ _ ↦ trivial
  have hcreated : page.Meets Fits
      ([.choose, .uploaded (.ok firstFile), .run .imageThumbnail] ++ [.created 0 (.ok "1")]) := by
    refine hrun.concat fun state hstate fileId hfileId ↦ ?_
    rw [← Option.some.inj hstate] at hfileId ⊢
    exact ⟨firstFile, rfl, Option.some.inj hfileId⟩
  have heffect : page.Meets Fits ([.choose, .uploaded (.ok firstFile), .run .imageThumbnail,
      .created 0 (.ok "1")] ++ [.effect]) := hcreated.concat fun _ _ ↦ trivial
  have hmessage : page.Meets Fits ([.choose, .uploaded (.ok firstFile), .run .imageThumbnail,
      .created 0 (.ok "1"), .effect] ++
        [.message { jobId := "1", state := .completed, progress := 100 }]) :=
    heffect.concat fun _ _ ↦ trivial
  exact ⟨_, rfl, (always_shownFits_iff oneJob _ rfl).mpr hmessage⟩

/-- Run is clicked for the first file while the second one is on its way. -/
def overlapping : List Action :=
  [.choose, .uploaded (.ok firstFile), .choose, .run .imageThumbnail, .created 0 (.ok "1"),
    .uploaded (.ok secondFile)]

/-- The job of the first file is shown under the second. -/
theorem not_forall_shownFits :
    ¬ ∀ (actions : List Action) (state : State), page.run actions = some state →
      ShownFits state := by
  intro h
  obtain ⟨upload, hupload, hlookup⟩ := (h overlapping _ rfl).job "1" rfl
  rw [← Option.some.inj hupload] at hlookup
  have hfile : some "a" = some "b" := hlookup
  exact absurd hfile (by decide)

end FileForge.Frontend.App
