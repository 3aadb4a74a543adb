import FileForge.Files.Repository
import FileForge.Foundation.Execution
import FileForge.Jobs.Cleanup
import FileForge.Storage.LocalStorage
import Mathlib.Tactic.Linarith

/-!
# Records and the sweep

Uploads, the clock, the expiry of records and the cleanup sweep together. An upload is two steps:
its staged file is adopted under a fresh key, with the moment at which it was written, and then its
record is saved for `defaultTtlSeconds`. A sweep runs `cleanupOldFiles` with the moment at which it
was started, which may be past, and any of its calls may fail; a sweep that is interleaved with
other steps is several such sweeps.

`RecordsHaveBytes` says that a record that can be read has its bytes. The record's time counts from
the save and the age of the file from its last write, so the lag between the two counts as well:
`recordsHaveBytes_iff` says that the retention must cover the lifetime of a record and the lag.
-/

set_option autoImplicit false
set_option relaxedAutoImplicit false

namespace FileForge.Files.Retention

open Foundation.Interaction Foundation.PosixPath Foundation.FileTree Foundation.ExpiringStore
open Foundation.Execution Repository Storage.LocalStorage Jobs.Cleanup

/-! ### The system -/

structure State where
  /-- Milliseconds. -/
  now : ℕ
  tree : Tree
  records : Records
  /-- The adopted files whose records have not been saved yet: their keys and last writes. -/
  pending : List (String × ℚ)

inductive Action
  | tick (milliseconds : ℕ)
  /-- `storage.adopt` has moved a staged file to a key. -/
  | adopt (key : String) (bytes : Bytes) (mtimeMs : ℚ)
  /-- `files.save` of the record of an adopted file. -/
  | save (record : FileRecord)
  /-- `cleanupOldFiles`, started at a moment, and what becomes of its calls. -/
  | sweep (startedAt : ℕ) (fate : ℕ → Fate)

/-- The tree after a sweep. -/
def swept (root : AbsolutePath) (retentionHours startedAt : ℕ) (fate : ℕ → Fate) (tree : Tree) :
    Tree :=
  (Program.run ({ fate := fate } : Machine).world
    (cleanupOldFiles root retentionHours startedAt) 0 tree).state

/-- A staged file, written at a moment that has come, is moved to a key that names nothing yet. -/
def adopted (root : AbsolutePath) (state : State) (key : String) (bytes : Bytes) (mtimeMs : ℚ) :
    Option State :=
  match pathFor root key with
  | .error _ => none
  | .ok path =>
    if state.tree.lookup path = none ∧ mtimeMs ≤ state.now then
      some { state with
        tree := state.tree.insert path (.file bytes mtimeMs)
        pending := (key, mtimeMs) :: state.pending }
    else none

/-- The record of an adopted file is saved, with the size that `stat` has reported. -/
def saved (state : State) (record : FileRecord) : Option State :=
  if (state.pending.any fun entry ↦ entry.1 = record.storageKey) ∧
      record.size ≤ maxSafeInteger then
    some { state with
      records := Repository.save state.records state.now record
      pending := state.pending.filter fun entry ↦ entry.1 ≠ record.storageKey }
  else none

def step (root : AbsolutePath) (retentionHours : ℕ) (state : State) : Action → Option State
  | .tick milliseconds => some { state with now := state.now + milliseconds }
  | .adopt key bytes mtimeMs => adopted root state key bytes mtimeMs
  | .save record => saved state record
  | .sweep startedAt fate =>
    if startedAt ≤ state.now then
      some { state with tree := swept root retentionHours startedAt fate state.tree }
    else none

/-- A service with a storage tree and no record. -/
def system (root : AbsolutePath) (retentionHours : ℕ) (tree : Tree) : System State Action where
  start := { now := 0, tree := tree, records := Foundation.ExpiringStore.empty, pending := [] }
  step := step root retentionHours

/-- For every id under which a record is read, its storage key exists. -/
def RecordsHaveBytes (root : AbsolutePath) (state : State) : Prop :=
  ∀ id record, Repository.get state.records state.now id = .ok (some record) →
    (Program.run ({} : Machine).world (existsStored root record.storageKey) 0
      state.tree).outcome = .ok true

/-- A record is saved at most so many milliseconds after the last write of its file. -/
def SavedWithin (lagMs : ℕ) (state : State) : Action → Prop
  | .save record => ∀ mtimeMs, (record.storageKey, mtimeMs) ∈ state.pending →
    (state.now : ℚ) - mtimeMs ≤ lagMs
  | _ => True

/-- The lifetime of a record in milliseconds. -/
def ttlMs : ℕ := defaultTtlSeconds * 1000

/-- The retention in milliseconds. -/
def retentionMs (retentionHours : ℕ) : ℕ := retentionHours * 60 * 60 * 1000

theorem adopted_eq_some {root : AbsolutePath} {state after : State} {key : String} {bytes : Bytes}
    {mtimeMs : ℚ} (h : adopted root state key bytes mtimeMs = some after) :
    ∃ path, pathFor root key = .ok path ∧ state.tree.lookup path = none ∧ after = { state with
      tree := state.tree.insert path (.file bytes mtimeMs)
      pending := (key, mtimeMs) :: state.pending } := by
  unfold adopted at h
  split at h
  · cases h
  · rename_i path hpath
    split_ifs at h with hfresh
    exact ⟨path, hpath, hfresh.1, (Option.some.inj h).symm⟩

theorem adopted_of_fresh {root path : AbsolutePath} {state : State} {key : String} {bytes : Bytes}
    {mtimeMs : ℚ} (hpath : pathFor root key = .ok path) (hfresh : state.tree.lookup path = none)
    (hwritten : mtimeMs ≤ state.now) :
    adopted root state key bytes mtimeMs = some { state with
      tree := state.tree.insert path (.file bytes mtimeMs)
      pending := (key, mtimeMs) :: state.pending } := by
  unfold adopted
  split
  · rename_i fault hrefused
    cases hpath.symm.trans hrefused
  · rename_i target htarget
    obtain rfl := Except.ok.inj (hpath.symm.trans htarget)
    exact if_pos ⟨hfresh, hwritten⟩

theorem saved_eq_some {state after : State} {record : FileRecord}
    (h : saved state record = some after) :
    (state.pending.any fun entry ↦ entry.1 = record.storageKey) = true ∧
      record.size ≤ maxSafeInteger ∧ after = { state with
        records := Repository.save state.records state.now record
        pending := state.pending.filter fun entry ↦ entry.1 ≠ record.storageKey } := by
  unfold saved at h
  split_ifs at h with hadopted
  exact ⟨hadopted.1, hadopted.2, (Option.some.inj h).symm⟩

theorem step_sweep {root : AbsolutePath} {retentionHours startedAt : ℕ} {state : State}
    (hstarted : startedAt ≤ state.now) (fate : ℕ → Fate) :
    step root retentionHours state (.sweep startedAt fate) =
      some { state with tree := swept root retentionHours startedAt fate state.tree } :=
  if_pos hstarted

/-! ### What a long retention keeps -/

theorem cutoffOf_eq (retentionHours : ℕ) (now : ℚ) :
    cutoffOf retentionHours now = now - retentionMs retentionHours := by
  rw [cutoffOf, retentionMs]
  push_cast
  rfl

/-- A sweep keeps what was written at its cutoff or later. -/
theorem holds_swept {root path : AbsolutePath} {retentionHours startedAt : ℕ} {fate : ℕ → Fate}
    {tree : Tree} {bytes : Bytes} {mtimeMs : ℚ} (h : Holds path bytes mtimeMs tree)
    (hyoung : cutoffOf retentionHours startedAt ≤ mtimeMs) :
    Holds path bytes mtimeMs (swept root retentionHours startedAt fate tree) := by
  have hkeeps := @cleanupOldFiles_keeps { fate := fate } path bytes mtimeMs
    (fun _ _ hholds ↦ hholds) retentionHours startedAt hyoung root 0 tree h
  rw [swept]
  cases houtcome : (Program.run ({ fate := fate } : Machine).world
      (cleanupOldFiles root retentionHours startedAt) 0 tree).outcome with
  | ok result =>
    rw [houtcome] at hkeeps
    exact hkeeps
  | error fault =>
    rw [houtcome] at hkeeps
    exact hkeeps

/-- The file of an adopted key is there, or was written so long ago that a sweep may have removed
it. -/
def PendingKept (root : AbsolutePath) (retentionHours : ℕ) (state : State) : Prop :=
  ∀ key mtimeMs, (key, mtimeMs) ∈ state.pending →
    ∃ path bytes, pathFor root key = .ok path ∧
      (Holds path bytes mtimeMs state.tree ∨
        mtimeMs < (state.now : ℚ) - retentionMs retentionHours)

/-- Every stored record was saved within the lag of the last write of its file, and the file is
there or the record cannot be read any more. -/
def RecordsKept (root : AbsolutePath) (lagMs : ℕ) (state : State) : Prop :=
  ∀ redisKey entry, state.records redisKey = some entry →
    ∃ (record : FileRecord) (savedAt : ℕ) (path : AbsolutePath) (bytes : Bytes) (mtimeMs : ℚ),
      entry = ⟨some record.toJson, some (savedAt + ttlMs)⟩ ∧
        record.size ≤ maxSafeInteger ∧ pathFor root record.storageKey = .ok path ∧
        (savedAt : ℚ) - mtimeMs ≤ lagMs ∧
        (Holds path bytes mtimeMs state.tree ∨ savedAt + ttlMs < state.now)

/-- A file that is there stays there when another one is adopted under a fresh key. -/
theorem holds_insert {path other : AbsolutePath} {bytes : Bytes} {mtimeMs : ℚ} {tree : Tree}
    (h : Holds path bytes mtimeMs tree) (hfresh : tree.lookup other = none) (node : Node) :
    Holds path bytes mtimeMs (tree.insert other node) := by
  have hne : path ≠ other := by
    rintro rfl
    have hsome : tree.lookup path = some (.file bytes mtimeMs) := h
    rw [hfresh] at hsome
    cases hsome
  exact (AList.lookup_insert_ne hne).trans h

section LongRetention

variable {root : AbsolutePath} {retentionHours lagMs : ℕ}

theorem kept_tick {state : State} (hpending : PendingKept root retentionHours state)
    (hrecords : RecordsKept root lagMs state) (milliseconds : ℕ) :
    PendingKept root retentionHours { state with now := state.now + milliseconds } ∧
      RecordsKept root lagMs { state with now := state.now + milliseconds } := by
  constructor
  · intro key mtimeMs hmem
    obtain ⟨path, bytes, hpath, hkept⟩ := hpending key mtimeMs hmem
    refine ⟨path, bytes, hpath, hkept.imp id fun hold ↦ ?_⟩
    have hlater : (0 : ℚ) ≤ milliseconds := Nat.cast_nonneg milliseconds
    push_cast
    linarith
  · intro redisKey entry hentry
    obtain ⟨record, savedAt, path, bytes, mtimeMs, heq, hsize, hpath, hlag, hkept⟩ :=
      hrecords redisKey entry hentry
    exact ⟨record, savedAt, path, bytes, mtimeMs, heq, hsize, hpath, hlag,
      hkept.imp id fun hexpired ↦ Nat.lt_add_right milliseconds hexpired⟩

theorem kept_adopt {state : State} (hpending : PendingKept root retentionHours state)
    (hrecords : RecordsKept root lagMs state) {key : String} {path : AbsolutePath} {bytes : Bytes}
    {mtimeMs : ℚ} (hpath : pathFor root key = .ok path)
    (hfresh : state.tree.lookup path = none) :
    PendingKept root retentionHours { state with
        tree := state.tree.insert path (.file bytes mtimeMs)
        pending := (key, mtimeMs) :: state.pending } ∧
      RecordsKept root lagMs { state with
        tree := state.tree.insert path (.file bytes mtimeMs)
        pending := (key, mtimeMs) :: state.pending } := by
  constructor
  · intro other otherMs hmem
    rcases List.mem_cons.mp hmem with hnew | hold
    · obtain ⟨rfl, rfl⟩ := Prod.mk.inj hnew
      exact ⟨path, bytes, hpath, Or.inl (AList.lookup_insert _)⟩
    · obtain ⟨otherPath, otherBytes, hotherPath, hkept⟩ := hpending other otherMs hold
      exact ⟨otherPath, otherBytes, hotherPath, hkept.imp (fun h ↦ holds_insert h hfresh _) id⟩
  · intro redisKey entry hentry
    obtain ⟨record, savedAt, otherPath, otherBytes, otherMs, heq, hsize, hother, hlag, hkept⟩ :=
      hrecords redisKey entry hentry
    exact ⟨record, savedAt, otherPath, otherBytes, otherMs, heq, hsize, hother, hlag,
      hkept.imp (fun h ↦ holds_insert h hfresh _) id⟩

/-- Assumes: the retention covers the lag. When the record is saved its file is still there. -/
theorem kept_save (hcover : ttlMs + lagMs ≤ retentionMs retentionHours) {state : State}
    (hpending : PendingKept root retentionHours state) (hrecords : RecordsKept root lagMs state)
    {record : FileRecord} (hsize : record.size ≤ maxSafeInteger)
    (hadopted : state.pending.any fun entry ↦ entry.1 = record.storageKey)
    (hwithin : SavedWithin lagMs state (.save record)) :
    PendingKept root retentionHours { state with
        records := Repository.save state.records state.now record
        pending := state.pending.filter fun entry ↦ entry.1 ≠ record.storageKey } ∧
      RecordsKept root lagMs { state with
        records := Repository.save state.records state.now record
        pending := state.pending.filter fun entry ↦ entry.1 ≠ record.storageKey } := by
  constructor
  · intro key mtimeMs hmem
    exact hpending key mtimeMs (List.mem_of_mem_filter hmem)
  · intro redisKey entry hentry
    by_cases hkey : redisKey = keyFor record.id
    · subst hkey
      have hstored : some (⟨some record.toJson, some (state.now + ttlMs)⟩ : Entry _) =
          some entry := (setEx_self _ _ _ _ _).symm.trans hentry
      obtain ⟨⟨key, mtimeMs⟩, hmem, hown⟩ := List.any_eq_true.mp hadopted
      obtain rfl : key = record.storageKey := of_decide_eq_true hown
      obtain ⟨path, bytes, hpath, hkept⟩ := hpending _ mtimeMs hmem
      have hlag := hwithin mtimeMs hmem
      refine ⟨record, state.now, path, bytes, mtimeMs, (Option.some.inj hstored).symm, hsize, hpath,
        hlag, Or.inl (hkept.resolve_right fun hold ↦ ?_)⟩
      have hcast : (ttlMs : ℚ) + lagMs ≤ retentionMs retentionHours := by exact_mod_cast hcover
      have hpositive : (0 : ℚ) ≤ ttlMs := Nat.cast_nonneg ttlMs
      linarith
    · have hother : state.records redisKey = some entry :=
        (setEx_of_ne _ _ _ _ hkey).symm.trans hentry
      exact hrecords redisKey entry hother

/-- Assumes: the retention covers the lifetime of a record and the lag. A sweep removes the file of
no record that can still be read. -/
theorem kept_sweep (hcover : ttlMs + lagMs ≤ retentionMs retentionHours) {state : State}
    (hpending : PendingKept root retentionHours state) (hrecords : RecordsKept root lagMs state)
    {startedAt : ℕ} (hstarted : startedAt ≤ state.now) (fate : ℕ → Fate) :
    PendingKept root retentionHours
        { state with tree := swept root retentionHours startedAt fate state.tree } ∧
      RecordsKept root lagMs
        { state with tree := swept root retentionHours startedAt fate state.tree } := by
  have hstartedCast : (startedAt : ℚ) ≤ state.now := by exact_mod_cast hstarted
  constructor
  · intro key mtimeMs hmem
    obtain ⟨path, bytes, hpath, hkept⟩ := hpending key mtimeMs hmem
    refine ⟨path, bytes, hpath, ?_⟩
    by_cases hyoung : cutoffOf retentionHours startedAt ≤ mtimeMs
    · exact hkept.imp (fun h ↦ holds_swept h hyoung) id
    · right
      rw [cutoffOf_eq] at hyoung
      linarith
  · intro redisKey entry hentry
    obtain ⟨record, savedAt, path, bytes, mtimeMs, heq, hsize, hpath, hlag, hkept⟩ :=
      hrecords redisKey entry hentry
    refine ⟨record, savedAt, path, bytes, mtimeMs, heq, hsize, hpath, hlag, ?_⟩
    by_cases hexpired : savedAt + ttlMs < state.now
    · exact Or.inr hexpired
    · refine hkept.imp (fun h ↦ holds_swept h ?_) id
      have hreadable : (state.now : ℚ) ≤ savedAt + ttlMs := by
        exact_mod_cast Nat.le_of_not_lt hexpired
      have hcast : (ttlMs : ℚ) + lagMs ≤ retentionMs retentionHours := by exact_mod_cast hcover
      rw [cutoffOf_eq]
      linarith

theorem kept_step (hcover : ttlMs + lagMs ≤ retentionMs retentionHours) {state after : State}
    {action : Action} (hpending : PendingKept root retentionHours state)
    (hrecords : RecordsKept root lagMs state) (hwithin : SavedWithin lagMs state action)
    (hstep : step root retentionHours state action = some after) :
    PendingKept root retentionHours after ∧ RecordsKept root lagMs after := by
  cases action with
  | tick milliseconds =>
    rw [step] at hstep
    obtain rfl := Option.some.inj hstep
    exact kept_tick hpending hrecords milliseconds
  | adopt key bytes mtimeMs =>
    rw [step] at hstep
    obtain ⟨path, hpath, hfresh, rfl⟩ := adopted_eq_some hstep
    exact kept_adopt hpending hrecords hpath hfresh
  | save record =>
    rw [step] at hstep
    obtain ⟨hadopted, hsize, rfl⟩ := saved_eq_some hstep
    exact kept_save hcover hpending hrecords hsize hadopted hwithin
  | sweep startedAt fate =>
    have hsweep : (if startedAt ≤ state.now then
        some { state with tree := swept root retentionHours startedAt fate state.tree }
      else none) = some after := hstep
    by_cases hstarted : startedAt ≤ state.now
    · rw [if_pos hstarted] at hsweep
      obtain rfl := Option.some.inj hsweep
      exact kept_sweep hcover hpending hrecords hstarted fate
    · rw [if_neg hstarted] at hsweep
      cases hsweep

/-- A record that can be read was saved as it is, and its file is there. -/
theorem recordsHaveBytes_of_kept {state : State} (h : RecordsKept root lagMs state) :
    RecordsHaveBytes root state := by
  intro id record hget
  obtain ⟨entry, value, hentry, halive, hvalue, hparsed⟩ := get_eq_some hget
  obtain ⟨saved, savedAt, path, bytes, mtimeMs, heq, hsize, hpath, -, hkept⟩ :=
    h (keyFor id) entry hentry
  subst heq
  obtain rfl := Option.some.inj hvalue
  rw [safeParse_toJson hsize] at hparsed
  obtain rfl := Option.some.inj hparsed
  have hreadable : state.now ≤ savedAt + ttlMs := halive _ rfl
  have hfile : Holds path bytes mtimeMs state.tree :=
    hkept.resolve_right (Nat.not_lt.mpr hreadable)
  have hnode : state.tree.lookup path = some (.file bytes mtimeMs) := hfile
  rw [run_existsStored hpath, hnode]
  rfl

/-- Assumes: the retention covers the lifetime of a record and the lag, and every save of the run
came within the lag. In the state reached every record that can be read has its bytes. -/
theorem recordsHaveBytes_of_cover (hcover : ttlMs + lagMs ≤ retentionMs retentionHours)
    {tree : Tree} {actions : List Action} {state : State}
    (hrun : (system root retentionHours tree).run actions = some state)
    (hwithin : (system root retentionHours tree).Meets (SavedWithin lagMs) actions) :
    RecordsHaveBytes root state := by
  have hkept : PendingKept root retentionHours state ∧ RecordsKept root lagMs state := by
    refine System.run_induction_of_meets
      (motive := fun state ↦ PendingKept root retentionHours state ∧ RecordsKept root lagMs state)
      ⟨?_, ?_⟩ ?_ hrun hwithin
    · intro key mtimeMs hmem
      exact (List.not_mem_nil hmem).elim
    · intro redisKey entry hentry
      cases hentry
    · rintro before action after ⟨hpending, hrecords⟩ hallowed hstep
      exact kept_step hcover hpending hrecords hallowed hstep
  exact recordsHaveBytes_of_kept hkept.2

end LongRetention

/-! ### What a short retention loses -/

/-- The directory of uploads and a file in it. -/
def uploads : AbsolutePath := ⟨["data", "storage", "uploads"], by decide⟩

def uploadPath : AbsolutePath := ⟨["data", "storage", "uploads", "a"], by decide⟩

/-- A storage without files. -/
def emptyStorage : Tree := ((∅ : Tree).insert dataStorage .directory).insert uploads .directory

/-- The storage with a file that was written at the start. -/
def uploadedStorage : Tree := emptyStorage.insert uploadPath (.file [] 0)

def upload : FileRecord :=
  { id := "1", storageKey := "uploads/a", originalName := "a", mimeType := "text/csv", size := 0
    uploadedAt := "1970-01-01T00:00:00.000Z" }

/-- When the lag has passed a file is adopted and its record saved, and after a wait a sweep is
started. -/
def uploadedThenSwept (lagMs waitMs : ℕ) : List Action :=
  [.tick lagMs, .adopt "uploads/a" [] 0, .save upload, .tick waitMs,
    .sweep (lagMs + waitMs) fun _ ↦ .completes]

theorem pathFor_upload : pathFor dataStorage "uploads/a" = .ok uploadPath := rfl

/-- The state when the lag has passed. -/
def startedState (lagMs : ℕ) : State :=
  { now := lagMs, tree := emptyStorage, records := Foundation.ExpiringStore.empty, pending := [] }

/-- The state when the file has been adopted. -/
def adoptedState (lagMs : ℕ) : State :=
  { startedState lagMs with tree := uploadedStorage, pending := [("uploads/a", 0)] }

/-- The state when the record has been saved. -/
def uploadedState (lagMs : ℕ) : State :=
  { startedState lagMs with
    tree := uploadedStorage
    records := Repository.save Foundation.ExpiringStore.empty lagMs upload }

theorem adopted_upload (lagMs : ℕ) :
    adopted dataStorage (startedState lagMs) "uploads/a" [] 0 = some (adoptedState lagMs) := by
  have hfresh : (startedState lagMs).tree.lookup uploadPath = none := by
    show emptyStorage.lookup uploadPath = none
    decide
  exact adopted_of_fresh pathFor_upload hfresh (Nat.cast_nonneg lagMs)

theorem saved_upload (lagMs : ℕ) : saved (adoptedState lagMs) upload = some (uploadedState lagMs) :=
  if_pos ⟨rfl, Nat.zero_le _⟩

/-- The sweep removes the file when its cutoff has passed the start. -/
theorem lookup_swept_upload {retentionHours now : ℕ} (hold : ¬ cutoffOf retentionHours now ≤ 0) :
    (swept dataStorage retentionHours now (fun _ ↦ .completes) uploadedStorage).lookup
      uploadPath = none := by
  have hroot : uploadedStorage.lookup dataStorage = some .directory := by decide
  have huploads : uploadedStorage.lookup uploads = some .directory := by decide
  have hfile : Holds uploadPath [] 0 uploadedStorage := by
    show uploadedStorage.lookup uploadPath = _
    decide
  have hrootChildren : children uploadedStorage dataStorage = ["uploads"] := by decide
  have huploadsChildren : children uploadedStorage uploads = ["a"] := by decide
  have hentry : resolve (join dataStorage.text "uploads") = uploads := by decide
  have hname : resolve (join uploads.text "a") = uploadPath := by decide
  rw [swept, run_cleanupOldFiles hroot, hrootChildren, List.foldlM_cons, Program.run_bind,
    sweepEntry, hentry, run_sweepDirectory huploads, huploadsChildren, List.foldlM_cons,
    Program.run_bind, sweepFile, hname, run_sweepPath_of_old hfile hold]
  exact AList.lookup_erase _ _


/-- The state before the sweep. -/
def waitedState (lagMs waitMs : ℕ) : State :=
  { uploadedState lagMs with now := lagMs + waitMs }

/-- The state after the sweep. -/
def sweptState (retentionHours lagMs waitMs : ℕ) : State :=
  { waitedState lagMs waitMs with
    tree := swept dataStorage retentionHours (lagMs + waitMs) (fun _ ↦ .completes)
      uploadedStorage }

section ShortRetention

variable (retentionHours lagMs waitMs : ℕ)

/-- The file has been adopted when the lag has passed. -/
theorem run_adopted :
    (system dataStorage retentionHours emptyStorage).run
      [.tick lagMs, .adopt "uploads/a" [] 0] = some (adoptedState lagMs) := by
  have hstarted : (system dataStorage retentionHours emptyStorage).run [.tick lagMs] =
      some (startedState lagMs) := by
    show some { startedState 0 with now := 0 + lagMs } = _
    rw [Nat.zero_add]
    rfl
  refine System.run_concat_eq_some_iff.mpr ⟨_, hstarted, ?_⟩
  exact adopted_upload lagMs

theorem run_uploadedThenSwept :
    (system dataStorage retentionHours emptyStorage).run (uploadedThenSwept lagMs waitMs) =
      some (sweptState retentionHours lagMs waitMs) := by
  have hsaved : (system dataStorage retentionHours emptyStorage).run
      ([.tick lagMs, .adopt "uploads/a" [] 0] ++ [.save upload]) = some (uploadedState lagMs) :=
    System.run_concat_eq_some_iff.mpr ⟨_, run_adopted retentionHours lagMs, saved_upload lagMs⟩
  have hwaited : (system dataStorage retentionHours emptyStorage).run
      ([.tick lagMs, .adopt "uploads/a" [] 0, .save upload] ++ [.tick waitMs]) =
      some (waitedState lagMs waitMs) :=
    System.run_concat_eq_some_iff.mpr ⟨_, hsaved, rfl⟩
  have hsweep : step dataStorage retentionHours (waitedState lagMs waitMs)
      (.sweep (lagMs + waitMs) fun _ ↦ .completes) =
      some (sweptState retentionHours lagMs waitMs) :=
    step_sweep (Nat.le_refl (lagMs + waitMs)) _
  refine System.run_concat_eq_some_iff.mpr ⟨_, hwaited, ?_⟩
  exact hsweep

/-- The only save of the run comes within the lag. -/
theorem meets_uploadedThenSwept :
    (system dataStorage retentionHours emptyStorage).Meets (SavedWithin lagMs)
      (uploadedThenSwept lagMs waitMs) := by
  have hbefore : (system dataStorage retentionHours emptyStorage).Meets (SavedWithin lagMs)
      [.tick lagMs, .adopt "uploads/a" [] 0] := by
    refine System.meets_of_forall fun action haction state ↦ ?_
    rcases List.mem_pair.mp haction with rfl | rfl
    · trivial
    · trivial
  have hsave : (system dataStorage retentionHours emptyStorage).Meets (SavedWithin lagMs)
      ([.tick lagMs, .adopt "uploads/a" [] 0] ++ [.save upload]) := by
    refine hbefore.concat fun state hstate ↦ ?_
    obtain rfl := Option.some.inj ((run_adopted retentionHours lagMs).symm.trans hstate)
    intro mtimeMs hmem
    obtain ⟨-, rfl⟩ := Prod.mk.inj (List.mem_singleton.mp hmem)
    show (lagMs : ℚ) - 0 ≤ lagMs
    rw [sub_zero]
  have htick : (system dataStorage retentionHours emptyStorage).Meets (SavedWithin lagMs)
      ([.tick lagMs, .adopt "uploads/a" [] 0, .save upload] ++ [.tick waitMs]) :=
    hsave.concat fun _ _ ↦ trivial
  exact htick.concat fun _ _ ↦ trivial

end ShortRetention

/-- Assumes: a wait that the record outlives, and a retention that ends before it. In the state that
the run reaches the record is read and its bytes are gone. -/
theorem not_recordsHaveBytes_sweptState {retentionHours lagMs waitMs : ℕ}
    (halive : waitMs ≤ ttlMs) (hshort : retentionMs retentionHours < lagMs + waitMs) :
    ¬ RecordsHaveBytes dataStorage (sweptState retentionHours lagMs waitMs) := by
  intro h
  have hget : Repository.get (sweptState retentionHours lagMs waitMs).records (lagMs + waitMs)
      upload.id = .ok (some upload) :=
    get_save Foundation.ExpiringStore.empty (Nat.zero_le _) (Nat.add_le_add_left halive lagMs)
  have hbytes := h upload.id upload hget
  have hold : ¬ cutoffOf retentionHours (lagMs + waitMs : ℕ) ≤ 0 := by
    rw [cutoffOf_eq]
    have hcast : (retentionMs retentionHours : ℚ) < lagMs + waitMs := by exact_mod_cast hshort
    push_cast
    linarith
  have hgone : (sweptState retentionHours lagMs waitMs).tree.lookup uploadPath = none :=
    lookup_swept_upload hold
  have hkey : pathFor dataStorage upload.storageKey = .ok uploadPath := pathFor_upload
  rw [run_existsStored hkey, hgone] at hbytes
  cases hbytes

/-! ### The retention that records need -/

/-- In every state that the service reaches, from any storage, every record that can be read has its
bytes: so it is, if no save comes later than the lag after the last write of its file, exactly when
the retention covers the lifetime of a record and the lag. -/
theorem recordsHaveBytes_iff (retentionHours lagMs : ℕ) :
    (∀ root tree actions state,
      (system root retentionHours tree).run actions = some state →
      (system root retentionHours tree).Meets (SavedWithin lagMs) actions →
      RecordsHaveBytes root state) ↔
    ttlMs + lagMs ≤ retentionMs retentionHours := by
  constructor
  · intro h
    by_contra hshort
    have hpast : retentionMs retentionHours < lagMs + ttlMs := by
      rw [Nat.add_comm]
      exact Nat.lt_of_not_le hshort
    exact not_recordsHaveBytes_sweptState (Nat.le_refl ttlMs) hpast
      (h dataStorage emptyStorage _ _ (run_uploadedThenSwept retentionHours lagMs ttlMs)
        (meets_uploadedThenSwept retentionHours lagMs ttlMs))
  · intro hcover root tree actions state hrun hwithin
    exact recordsHaveBytes_of_cover hcover hrun hwithin

/-- A service that keeps files for an hour has swept the bytes of a record that it still reads. -/
theorem not_recordsHaveBytes_oneHour :
    ¬ ∀ root tree actions state, (system root 1 tree).run actions = some state →
      RecordsHaveBytes root state := by
  intro h
  exact not_recordsHaveBytes_sweptState (Nat.le_refl ttlMs) (by decide)
    (h dataStorage emptyStorage _ _ (run_uploadedThenSwept 1 0 ttlMs))

end FileForge.Files.Retention
