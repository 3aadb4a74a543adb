import FileForge.Files.Upload
import FileForge.Storage.Atomicity

/-!
# What a failed upload leaves behind

The handler of `POST /uploads` for a staged file, with any of its calls failing. `adopt` ends at a
`Point`; from there the handler either goes on to save the record or removes the staged file and
passes the error on.

`commitsAll_iff` settles when an upload is all or nothing: when the staged file is moved and the
record saved, or when `adopt` stops before the target is opened or the file is moved, and the staged
file can be removed. Whatever `adopt` has put into storage by then stays there: nothing removes it.
-/

set_option autoImplicit false
set_option relaxedAutoImplicit false

namespace FileForge.Files.UploadAtomicity

open Foundation.Interaction Foundation.PosixPath Foundation.FileTree Foundation.FileWrites
open Storage.LocalStorage Storage.Atomicity Repository Upload

/-! ### What an upload owes -/

/-- Nothing is committed: every key holds the bytes it held before, no record was added, and the
staged file is gone. A key that names the staged file itself counts as staging, not as storage. -/
def NothingCommitted (root staged : AbsolutePath) (before after : State) : Prop :=
  (∀ key, pathFor root key ≠ .ok staged →
    bytesAt root after.tree key = bytesAt root before.tree key) ∧
    after.records = before.records ∧ content after.tree staged = none

/-- The upload is committed: a record was saved whose public fields are the answer, its key holds
the staged bytes, and its size is their number. -/
def Committed (root : AbsolutePath) (bytes : Bytes) (before : State) (body : Created)
    (after : State) : Prop :=
  ∃ record now, body = createdFrom record ∧
    after.records = Repository.save before.records now record ∧
    bytesAt root after.tree record.storageKey = some bytes ∧ record.size = bytes.length

/-- The handler answers 201 and has committed the upload, or it passes an error on and has committed
nothing. -/
def CommitsAll (root staged : AbsolutePath) (bytes : Bytes) (before : State)
    (outcome : Except NodeError Answer) (after : State) : Prop :=
  (∃ body, outcome = .ok (.created body) ∧ Committed root bytes before body after) ∨
    ∃ error, outcome = .ok (.passedOn error) ∧ NothingCommitted root staged before after

theorem commitsAll_passedOn {root staged : AbsolutePath} {bytes : Bytes} {before after : State}
    {error : NodeError} :
    CommitsAll root staged bytes before (.ok (.passedOn error)) after ↔
      NothingCommitted root staged before after := by
  constructor
  · rintro (⟨body, hbody, -⟩ | ⟨other, -, hnothing⟩)
    · cases hbody
    · exact hnothing
  · intro h
    exact Or.inr ⟨error, rfl, h⟩

/-- The run of the handler on a staged file. -/
def handled (deps : Deps) (runtime : Runtime) (file : StagedFile) (machine : Upload.Machine)
    (state : State) : Program.Ended NodeError Answer State :=
  Program.run machine.world (postUpload deps runtime (some file)) 0 state

/-! ### Runs of the handler -/

section Runs

variable {machine : Upload.Machine} {state : State}

/-- A storage program runs inside the handler as it does alone. -/
theorem run_onDisk {Result : Type} (program : Fs Result) (calls : ℕ) (state : State) :
    Program.run machine.world (onDisk program) calls state =
      ⟨(Program.run (world machine.fate machine.clock) program calls state.tree).outcome,
        (Program.run (world machine.fate machine.clock) program calls state.tree).calls,
        { state with tree :=
            (Program.run (world machine.fate machine.clock) program calls state.tree).state }⟩ := by
  refine @Program.run_within _ _ _ _ _ _ _ _ _ machine.world Call.disk (fun _ reply ↦ reply)
    State.tree (fun state tree ↦ { state with tree := tree }) (fun _ _ ↦ rfl) (fun _ _ _ ↦ rfl)
    (fun _ ↦ rfl) (fun calls request state ↦ ⟨?_, rfl⟩) program calls state
  show Except.map (fun reply ↦ reply) (answer _ _ request state.tree).1 =
    (answer (machine.fate calls) (machine.clock calls) request state.tree).1
  cases (answer (machine.fate calls) (machine.clock calls) request state.tree).1 with
  | ok reply => rfl
  | error fault => rfl

/-- The `catch` block passes the error on and removes the staged file when it can. -/
theorem run_abandon (file : StagedFile) (error : NodeError) (calls : ℕ) (state : State)
    (hfile : state.tree.lookup file.path ≠ some .directory) :
    ∃ tree, (∀ path ≠ file.path, content tree path = content state.tree path) ∧
      (content tree file.path = none ↔
        machine.fate calls = .completes ∨ content state.tree file.path = none) ∧
      Program.run machine.world (abandon file error) calls state =
        ⟨.ok (.passedOn error), calls + 1, { state with tree := tree }⟩ := by
  rw [abandon, Program.run_bind, Program.run_handle, run_onDisk, rm, Program.run_perform,
    world_apply]
  by_cases hfate : machine.fate calls = .completes
  · rw [hfate]
    rcases lookup_of_ne_directory hfile with hnone | ⟨bytes, mtimeMs, hnode⟩
    · -- there is nothing to remove, and `rm` may answer `ENOTDIR`
      have habsent : content state.tree file.path = none := by
        rw [content, hnone]
        rfl
      rw [answer_remove_of_none hnone]
      refine ⟨_, fun _ _ ↦ rfl, iff_of_true habsent (Or.inl rfl), ?_⟩
      split_ifs <;> rfl
    · rw [answer_remove_of_file hnode]
      exact ⟨_, fun path hpath ↦ content_erase_of_ne _ hpath,
        iff_of_true (content_erase_self _ _) (Or.inl rfl), rfl⟩
  · obtain ⟨fault, hanswer⟩ := answer_remove_of_fails hfate file.path state.tree
      (machine.clock calls)
    rw [hanswer]
    exact ⟨_, fun _ _ ↦ rfl, (or_iff_right hfate).symm, rfl⟩

/-- A counter is counted or not; the handler goes on. -/
theorem run_incrementCounter (deps : Deps) (counter : String) (amount calls : ℕ) (state : State) :
    ∃ calls' counters,
      Program.run machine.world (incrementCounter deps counter amount) calls state =
        ⟨.ok (), calls', { state with counters := counters }⟩ := by
  unfold incrementCounter
  split_ifs with hcounts
  · rw [Program.run_handle, Program.run_perform]
    show ∃ calls' counters, Program.Ended.handle
      ⟨(serverAnswer (machine.server calls) _ state).1, _,
        (serverAnswer (machine.server calls) _ state).2⟩ _ = _
    cases machine.server calls with
    | completes => exact ⟨_, _, rfl⟩
    | fails code applied =>
      cases applied with
      | true => exact ⟨_, _, rfl⟩
      | false => exact ⟨_, _, rfl⟩
  · exact ⟨calls, state.counters, rfl⟩

theorem world_set (calls : ℕ) (record : FileRecord) (state : State) :
    machine.world calls (.set record) state = serverAnswer (machine.server calls) (fun state ↦
      { state with records := Repository.save state.records (machine.now calls) record }) state :=
  rfl

/-- What the `try` block does when the staged file has been adopted. -/
def recordUpload (deps : Deps) (record : FileRecord) : Handler Answer := do
  saveRecord record
  incrementCounter deps "uploads_total" 1
  incrementCounter deps "bytes_uploaded_total" record.size
  return .created (createdFrom record)

/-- The record is saved, and the counters have no say. -/
theorem run_record_of_completes (deps : Deps) (saved : FileRecord) {calls : ℕ} (state : State)
    (hserver : machine.server calls = .completes) :
    ∃ calls' counters, Program.run machine.world (recordUpload deps saved) calls state =
      ⟨.ok (.created (createdFrom saved)), calls',
        { tree := state.tree, counters := counters
          records := Repository.save state.records (machine.now calls) saved }⟩ := by
  rw [recordUpload, Program.run_bind, saveRecord, Program.run_perform, world_set, hserver,
    serverAnswer, Program.Ended.andThen_ok]
  obtain ⟨calls₁, counters₁, huploads⟩ := @run_incrementCounter machine deps "uploads_total" 1
    (calls + 1) { state with
      records := Repository.save state.records (machine.now calls) saved }
  obtain ⟨calls₂, counters₂, hbytes⟩ := @run_incrementCounter machine deps "bytes_uploaded_total"
    saved.size calls₁ { state with
      records := Repository.save state.records (machine.now calls) saved, counters := counters₁ }
  rw [Program.run_bind, huploads, Program.Ended.andThen_ok, Program.run_bind, hbytes]
  exact ⟨calls₂, counters₂, rfl⟩

/-- Redis has failed, with the record saved or not. -/
theorem run_record_of_fails (deps : Deps) (saved : FileRecord) {calls : ℕ} (state : State)
    {code : ErrorCode} {applied : Bool} (hserver : machine.server calls = .fails code applied) :
    Program.run machine.world (recordUpload deps saved) calls state =
      ⟨.error (.system code), calls + 1, { state with
        records := if applied then Repository.save state.records (machine.now calls) saved
          else state.records }⟩ := by
  rw [recordUpload, Program.run_bind, saveRecord, Program.run_perform, world_set, hserver,
    serverAnswer]
  cases applied with
  | true => rfl
  | false => rfl

end Runs

/-! ### When an upload is all or nothing -/

/-- What a point of `adopt` has put at the target. -/
def output (staged : Bytes) : Point → Option Bytes
  | .refused | .unopened => none
  | .left bytes => some bytes
  | .moved | .stored | .gone => some staged

/-- The point leaves every file of storage as it was: nothing was put at the target, or an earlier
file there holds the same, or the target is the staged file. -/
def KeepsFiles (tree : Tree) (target staging : AbsolutePath) (staged : Bytes) (point : Point) :
    Prop :=
  ∀ bytes ∈ output staged point, target = staging ∨ content tree target = some (some bytes)

/-- The staged file is still there at the point. -/
def HoldsStaged (target staging : AbsolutePath) : Point → Prop
  | .refused | .unopened | .left _ => True
  | .moved | .stored => staging = target
  | .gone => False

/-- What a path other than the staged file holds at a point. -/
theorem join_leaves {fate : Fate} {tree : Tree} {target staging path : AbsolutePath}
    {staged : Bytes} {point : Point} (hpath : path ≠ staging) :
    (point.leaves (prepared fate tree target.dirname) target (some staging) staged path).join =
      if path = target then (output staged point).or (content tree path).join
      else (content tree path).join := by
  have hvacate : ∀ holds, vacate (some staging) holds path = holds path := fun holds ↦
    Function.update_of_ne hpath _ _
  by_cases htarget : path = target
  · subst htarget
    rw [if_pos rfl]
    cases point with
    | refused => exact join_content_prepared fate tree _ path
    | unopened => exact join_content_prepared fate tree _ path
    | left bytes =>
      rw [Point.leaves, Function.update_self]
      rfl
    | moved =>
      rw [Point.leaves, Function.update_self]
      rfl
    | stored =>
      rw [Point.leaves, Function.update_self]
      rfl
    | gone =>
      rw [Point.leaves, hvacate, Function.update_self]
      rfl
  · rw [if_neg htarget]
    cases point with
    | refused => exact join_content_prepared fate tree _ path
    | unopened => exact join_content_prepared fate tree _ path
    | left bytes =>
      rw [Point.leaves, Function.update_of_ne htarget]
      exact join_content_prepared fate tree _ path
    | moved =>
      rw [Point.leaves, Function.update_of_ne htarget, hvacate]
      exact join_content_prepared fate tree _ path
    | stored =>
      rw [Point.leaves, Function.update_of_ne htarget, hvacate]
      exact join_content_prepared fate tree _ path
    | gone =>
      rw [Point.leaves, hvacate, Function.update_of_ne htarget]
      exact join_content_prepared fate tree _ path

/-- Storage has the files it had exactly when the point keeps them. -/
theorem files_iff {root : AbsolutePath} {key : String} {fate : Fate} {tree after : Tree}
    {target staging : AbsolutePath} {staged : Bytes} {point : Point}
    (hkey : pathFor root key = .ok target)
    (hleft : ∀ path ≠ staging, content after path =
      point.leaves (prepared fate tree target.dirname) target (some staging) staged path) :
    (∀ other, pathFor root other ≠ .ok staging →
      bytesAt root after other = bytesAt root tree other) ↔
      KeepsFiles tree target staging staged point := by
  constructor
  · intro h bytes hbytes
    by_cases hstaging : target = staging
    · exact Or.inl hstaging
    · right
      have hsame := h key (by rw [hkey]; simpa using hstaging)
      rw [bytesAt_of_ok hkey, bytesAt_of_ok hkey, hleft target hstaging,
        join_leaves hstaging, if_pos rfl, hbytes] at hsame
      exact Option.join_eq_some_iff.mp hsame.symm
  · intro h other hother
    cases hnamed : pathFor root other with
    | error fault => rw [bytesAt_of_error hnamed, bytesAt_of_error hnamed]
    | ok path =>
      have hpath : path ≠ staging := by
        rintro rfl
        exact hother hnamed
      rw [bytesAt_of_ok hnamed, bytesAt_of_ok hnamed, hleft path hpath, join_leaves hpath]
      split_ifs with htarget
      · subst htarget
        cases houtput : output staged point with
        | none => rfl
        | some bytes =>
          rw [(h bytes houtput).resolve_left hpath]
          rfl
      · rfl

/-- Whether the staged file is there at a point. Assumes: it was there before. -/
theorem leaves_staging_iff {fate : Fate} {tree : Tree} {target staging : AbsolutePath}
    {staged : Bytes} {point : Point} (hstaged : content tree staging = some (some staged)) :
    point.leaves (prepared fate tree target.dirname) target (some staging) staged staging = none ↔
      ¬ HoldsStaged target staging point := by
  have hmade : content (prepared fate tree target.dirname) staging = some (some staged) :=
    content_prepared_of_file.mpr hstaged
  cases point with
  | refused => simp [Point.leaves, HoldsStaged, hmade]
  | unopened => simp [Point.leaves, HoldsStaged, hmade]
  | left bytes =>
    rw [Point.leaves, HoldsStaged]
    by_cases hsame : staging = target
    · rw [hsame, Function.update_self]
      simp
    · rw [Function.update_of_ne hsame, hmade]
      simp
  | moved =>
    rw [Point.leaves, HoldsStaged]
    by_cases hsame : staging = target
    · rw [hsame, Function.update_self]
      simp
    · rw [Function.update_of_ne hsame, vacate, Function.update_self]
      simp [hsame]
  | stored =>
    rw [Point.leaves, HoldsStaged]
    by_cases hsame : staging = target
    · rw [hsame, Function.update_self]
      simp
    · rw [Function.update_of_ne hsame, vacate, Function.update_self]
      simp [hsame]
  | gone => simp [Point.leaves, HoldsStaged, vacate]

/-- At the staged file's path a point leaves nothing or a file. Assumes: it was there before. -/
theorem leaves_staging_ne_directory {fate : Fate} {tree : Tree} {target staging : AbsolutePath}
    {staged : Bytes} {point : Point} (hstaged : content tree staging = some (some staged)) :
    point.leaves (prepared fate tree target.dirname) target (some staging) staged staging ≠
      some none := by
  by_cases hholds : HoldsStaged target staging point
  · have hmade : content (prepared fate tree target.dirname) staging = some (some staged) :=
      content_prepared_of_file.mpr hstaged
    cases point with
    | refused => simp [Point.leaves, hmade]
    | unopened => simp [Point.leaves, hmade]
    | left bytes =>
      rw [Point.leaves]
      by_cases hsame : staging = target
      · rw [hsame, Function.update_self]
        simp
      · rw [Function.update_of_ne hsame, hmade]
        simp
    | moved =>
      rw [Point.leaves, show staging = target from hholds, Function.update_self]
      simp
    | stored =>
      rw [Point.leaves, show staging = target from hholds, Function.update_self]
      simp
    | gone => exact absurd hholds id
  · rw [(leaves_staging_iff hstaged).mpr hholds]
    simp

/-- The key under which an upload is stored. -/
def keyOf (runtime : Runtime) (file : StagedFile) : String :=
  storageKeyFor runtime (sanitizeFilename file.originalname)

/-- What the `try` block has done by a point can be withdrawn: the files of storage are as they
were, and the `catch` block removes the staged file if it is still there. -/
def Withdrawn (machine : Upload.Machine) (tree : Tree) (target staging : AbsolutePath)
    (staged : Bytes) (point : Point) (calls : ℕ) : Prop :=
  KeepsFiles tree target staging staged point ∧
    (HoldsStaged target staging point → machine.fate calls = .completes)

/-- The condition at the point that `adopt` gets to: the record is saved, or what was done can be
withdrawn. A record that was saved although Redis failed is never withdrawn. -/
def HarmlessAt (runtime : Runtime) (file : StagedFile) (staged : Bytes) (machine : Upload.Machine)
    (state : State) (target : AbsolutePath) (point : Point) (calls : ℕ) : Prop :=
  (point = .stored ∧ machine.server calls = .completes) ∨
    (point = .stored ∧ ∃ code applied, machine.server calls = .fails code applied ∧
      Withdrawn machine state.tree target file.path staged .stored (calls + 1) ∧
        (applied = true → Repository.save state.records (machine.now calls)
          (recordOf runtime file { key := keyOf runtime file, size := staged.length }) =
            state.records)) ∨
    (point ≠ .stored ∧ Withdrawn machine state.tree target file.path staged point calls)

/-- The condition on the request, the fates of the calls and the state. -/
def Harmless (deps : Deps) (runtime : Runtime) (file : StagedFile) (staged : Bytes)
    (machine : Upload.Machine) (state : State) : Prop :=
  ((∃ fault, pathFor deps.root (keyOf runtime file) = .error fault) ∧
      machine.fate 0 = .completes) ∨
    ∃ target, pathFor deps.root (keyOf runtime file) = .ok target ∧
      HarmlessAt runtime file staged machine state target
        (adoptPoint machine.fate state.tree file.path staged target).1
        (adoptPoint machine.fate state.tree file.path staged target).2

section Condition

variable {deps : Deps} {runtime : Runtime} {file : StagedFile} {staged : Bytes}
  {machine : Upload.Machine} {state : State} {target : AbsolutePath} {point : Point} {calls : ℕ}

theorem harmless_of_error {fault : NodeError}
    (hkey : pathFor deps.root (keyOf runtime file) = .error fault) :
    Harmless deps runtime file staged machine state ↔ machine.fate 0 = .completes := by
  constructor
  · rintro (⟨-, hfate⟩ | ⟨target, htarget, -⟩)
    · exact hfate
    · cases hkey.symm.trans htarget
  · intro hfate
    exact Or.inl ⟨⟨fault, hkey⟩, hfate⟩

theorem harmless_of_ok (hkey : pathFor deps.root (keyOf runtime file) = .ok target) :
    Harmless deps runtime file staged machine state ↔
      HarmlessAt runtime file staged machine state target
        (adoptPoint machine.fate state.tree file.path staged target).1
        (adoptPoint machine.fate state.tree file.path staged target).2 := by
  constructor
  · rintro (⟨⟨fault, hfault⟩, -⟩ | ⟨other, hother, h⟩)
    · cases hkey.symm.trans hfault
    · obtain rfl := Except.ok.inj (hkey.symm.trans hother)
      exact h
  · intro h
    exact Or.inr ⟨target, hkey, h⟩

theorem harmlessAt_of_ne (h : point ≠ .stored) :
    HarmlessAt runtime file staged machine state target point calls ↔
      Withdrawn machine state.tree target file.path staged point calls := by
  constructor
  · rintro (⟨hstored, -⟩ | ⟨hstored, -⟩ | ⟨-, hwithdrawn⟩)
    · exact absurd hstored h
    · exact absurd hstored h
    · exact hwithdrawn
  · intro hwithdrawn
    exact Or.inr (Or.inr ⟨h, hwithdrawn⟩)

theorem harmlessAt_of_fails {code : ErrorCode} {applied : Bool} (h : point = .stored)
    (hserver : machine.server calls = .fails code applied) :
    HarmlessAt runtime file staged machine state target point calls ↔
      Withdrawn machine state.tree target file.path staged .stored (calls + 1) ∧
        (applied = true → Repository.save state.records (machine.now calls)
          (recordOf runtime file { key := keyOf runtime file, size := staged.length }) =
            state.records) := by
  constructor
  · rintro (⟨-, hcompletes⟩ | ⟨-, other, otherApplied, hfails, hwithdrawn⟩ | ⟨hne, -⟩)
    · cases hserver.symm.trans hcompletes
    · cases hserver.symm.trans hfails
      exact hwithdrawn
    · exact absurd h hne
  · intro hwithdrawn
    exact Or.inr (Or.inl ⟨h, code, applied, hserver, hwithdrawn⟩)

end Condition

/-- The `try` block as far as it got, and the `catch` block. -/
theorem commitsAll_abandon_iff {deps : Deps} {file : StagedFile} {key : String} {fate : Fate}
    {machine : Upload.Machine} {before after : State} {target : AbsolutePath} {staged : Bytes}
    {point : Point} {calls : ℕ} (error : NodeError)
    (hstaged : content before.tree file.path = some (some staged))
    (hkey : pathFor deps.root key = .ok target)
    (hleft : content after.tree = point.leaves (prepared fate before.tree target.dirname) target
      (some file.path) staged) :
    CommitsAll deps.root file.path staged before
        (Program.run machine.world (abandon file error) calls after).outcome
        (Program.run machine.world (abandon file error) calls after).state ↔
      Withdrawn machine before.tree target file.path staged point calls ∧
        after.records = before.records := by
  have hfile : after.tree.lookup file.path ≠ some .directory := by
    intro hdirectory
    have hheld : content after.tree file.path ≠ some none := by
      rw [hleft]
      exact leaves_staging_ne_directory hstaged
    rw [content, hdirectory] at hheld
    exact hheld rfl
  obtain ⟨tree, hothers, hgone, hrun⟩ := @run_abandon machine file error calls after hfile
  rw [hrun, commitsAll_passedOn]
  have hfiles := @files_iff deps.root key fate before.tree tree target file.path staged point hkey
    fun path hpath ↦ (hothers path hpath).trans (congrFun hleft path)
  have hremoved : content tree file.path = none ↔
      (HoldsStaged target file.path point → machine.fate calls = .completes) := by
    rw [hgone, hleft, leaves_staging_iff hstaged, or_comm, ← imp_iff_not_or]
  rw [NothingCommitted, hfiles, hremoved, Withdrawn, and_assoc]
  exact and_congr_right fun _ ↦ and_comm

theorem commit_eq (deps : Deps) (runtime : Runtime) (file : StagedFile) :
    commit deps runtime file = onDisk (adopt deps.root (keyOf runtime file) file.path) >>=
      fun stored ↦ recordUpload deps (recordOf runtime file stored) := rfl

section Handled

variable {deps : Deps} {runtime : Runtime} {file : StagedFile} {machine : Upload.Machine}
  {state after : State} {calls : ℕ}

/-- `adopt` has rejected: the `catch` block is next. -/
theorem handled_of_rejects {fault : NodeError}
    (h : Program.run machine.world (onDisk (adopt deps.root (keyOf runtime file) file.path)) 0
      state = ⟨.error fault, calls, after⟩) :
    handled deps runtime file machine state =
      Program.run machine.world (abandon file fault) calls after := by
  rw [handled, postUpload, commit_eq, Program.run_handle, Program.run_bind, h,
    Program.Ended.andThen_error, Program.Ended.handle_error]

/-- `adopt` has resolved: the record is next, and the `catch` block if it cannot be saved. -/
theorem handled_of_resolves {stored : StoredFile}
    (h : Program.run machine.world (onDisk (adopt deps.root (keyOf runtime file) file.path)) 0
      state = ⟨.ok stored, calls, after⟩) :
    handled deps runtime file machine state =
      (Program.run machine.world (recordUpload deps (recordOf runtime file stored)) calls
        after).handle fun fault calls state ↦
          Program.run machine.world (abandon file fault) calls state := by
  rw [handled, postUpload, commit_eq, Program.run_handle, Program.run_bind, h,
    Program.Ended.andThen_ok]

end Handled

/-- `adopt` of an admitted key inside the handler ends at its point. -/
theorem run_onDisk_adopt {deps : Deps} {key : String} {file : StagedFile}
    {machine : Upload.Machine} {state : State} {target : AbsolutePath} {staged : Bytes}
    (hkey : pathFor deps.root key = .ok target)
    (hstaged : content state.tree file.path = some (some staged)) :
    ∃ outcome tree, EndsAt key (prepared (machine.fate 0) state.tree target.dirname) target
        (some file.path) staged
        ⟨outcome, (adoptPoint machine.fate state.tree file.path staged target).2, tree⟩
        (adoptPoint machine.fate state.tree file.path staged target).1 ∧
      Program.run machine.world (onDisk (adopt deps.root key file.path)) 0 state =
        ⟨outcome, (adoptPoint machine.fate state.tree file.path staged target).2,
          { state with tree := tree }⟩ := by
  have hadopt : adopt deps.root key file.path = adoptTo key file.path target := by
    rw [adopt, hkey]
    rfl
  obtain ⟨hends, hcalls⟩ := @run_adoptTo machine.fate machine.clock state.tree target key file.path
    staged hstaged
  rw [run_onDisk, hadopt]
  refine ⟨_, _, ?_, by rw [hcalls]⟩
  exact ⟨hends.outcome, hends.holds⟩

section Request

variable {deps : Deps} {runtime : Runtime} {file : StagedFile} {staged : Bytes}
  {machine : Upload.Machine} {state : State}
  (hstaged : content state.tree file.path = some (some staged))

include hstaged

/-- A refused key: nothing was done, and the staged file has to go. -/
theorem commitsAll_of_refused {fault : NodeError}
    (hkey : pathFor deps.root (keyOf runtime file) = .error fault) :
    CommitsAll deps.root file.path staged state (handled deps runtime file machine state).outcome
        (handled deps runtime file machine state).state ↔ machine.fate 0 = .completes := by
  have hadopt : adopt deps.root (keyOf runtime file) file.path = throw fault := by
    rw [adopt, hkey]
    rfl
  have hfile : state.tree.lookup file.path ≠ some .directory := by
    intro hdirectory
    rw [content, hdirectory] at hstaged
    cases Option.some.inj hstaged
  obtain ⟨tree, hothers, hgone, hrun⟩ := @run_abandon machine file fault 0 state hfile
  rw [handled_of_rejects (by rw [hadopt, run_onDisk, Program.run_throw]), hrun,
    commitsAll_passedOn, NothingCommitted, hgone, hstaged]
  constructor
  · intro h
    exact h.2.2.resolve_right (by simp)
  · intro hfate
    refine ⟨fun key hpath ↦ ?_, rfl, Or.inl hfate⟩
    cases hnamed : pathFor deps.root key with
    | error fault => rw [bytesAt_of_error hnamed, bytesAt_of_error hnamed]
    | ok path =>
      have hother : path ≠ file.path := by
        rintro rfl
        exact hpath hnamed
      rw [bytesAt_of_ok hnamed, bytesAt_of_ok hnamed, hothers path hother]

variable {target : AbsolutePath} (hkey : pathFor deps.root (keyOf runtime file) = .ok target)

include hkey

/-- `adopt` has stopped at a point: what was done has to be withdrawn. -/
theorem commitsAll_of_rejects
    (hpoint : (adoptPoint machine.fate state.tree file.path staged target).1 ≠ .stored) :
    CommitsAll deps.root file.path staged state (handled deps runtime file machine state).outcome
        (handled deps runtime file machine state).state ↔
      Withdrawn machine state.tree target file.path staged
        (adoptPoint machine.fate state.tree file.path staged target).1
        (adoptPoint machine.fate state.tree file.path staged target).2 := by
  obtain ⟨outcome, tree, hends, hrun⟩ :=
    @run_onDisk_adopt deps _ file machine state target staged hkey hstaged
  obtain ⟨fault, rfl⟩ := hends.rejects hpoint
  rw [handled_of_rejects hrun, commitsAll_abandon_iff fault hstaged hkey hends.holds]
  exact and_iff_left rfl

/-- `adopt` has gone through, and so does the save of the record. -/
theorem commitsAll_of_completes
    (hpoint : (adoptPoint machine.fate state.tree file.path staged target).1 = .stored)
    (hserver : machine.server (adoptPoint machine.fate state.tree file.path staged target).2 =
      .completes) :
    CommitsAll deps.root file.path staged state (handled deps runtime file machine state).outcome
      (handled deps runtime file machine state).state := by
  obtain ⟨outcome, tree, hends, hrun⟩ :=
    @run_onDisk_adopt deps _ file machine state target staged hkey hstaged
  have houtcome := hends.outcome
  have hholds := hends.holds
  rw [hpoint] at houtcome hholds
  obtain rfl := houtcome
  obtain ⟨calls, counters, hrecord⟩ := run_record_of_completes deps
    (recordOf runtime file { key := keyOf runtime file, size := staged.length })
    { state with tree := tree } hserver
  rw [handled_of_resolves hrun, hrecord]
  refine Or.inl ⟨_, rfl, recordOf runtime file { key := keyOf runtime file, size := staged.length },
    machine.now (adoptPoint machine.fate state.tree file.path staged target).2, rfl, rfl, ?_, rfl⟩
  show bytesAt deps.root tree (keyOf runtime file) = _
  have htarget : content tree target = some (some staged) := by
    rw [show content tree = _ from hholds, Point.leaves, Function.update_self]
  rw [bytesAt_of_ok hkey, htarget]
  rfl

/-- `adopt` has gone through and the save of the record has failed. -/
theorem commitsAll_of_fails
    (hpoint : (adoptPoint machine.fate state.tree file.path staged target).1 = .stored)
    {code : ErrorCode} {applied : Bool}
    (hserver : machine.server (adoptPoint machine.fate state.tree file.path staged target).2 =
      .fails code applied) :
    CommitsAll deps.root file.path staged state (handled deps runtime file machine state).outcome
        (handled deps runtime file machine state).state ↔
      Withdrawn machine state.tree target file.path staged .stored
          ((adoptPoint machine.fate state.tree file.path staged target).2 + 1) ∧
        (applied = true → Repository.save state.records
          (machine.now (adoptPoint machine.fate state.tree file.path staged target).2)
          (recordOf runtime file { key := keyOf runtime file, size := staged.length }) =
            state.records) := by
  obtain ⟨outcome, tree, hends, hrun⟩ :=
    @run_onDisk_adopt deps _ file machine state target staged hkey hstaged
  have houtcome := hends.outcome
  have hholds := hends.holds
  rw [hpoint] at houtcome hholds
  obtain rfl := houtcome
  rw [handled_of_resolves hrun, run_record_of_fails deps _ _ hserver, Program.Ended.handle_error,
    @commitsAll_abandon_iff deps file _ _ machine state _ target staged .stored _ _ hstaged hkey
      hholds]
  refine and_congr_right fun _ ↦ ?_
  cases applied with
  | true => simp
  | false => simp

end Request

/-- A failed upload commits nothing, and a committed one is whole, exactly when the staged file is
moved and its record saved, or what was done by then can be withdrawn. Assumes: the file was
staged. -/
theorem commitsAll_iff (deps : Deps) (runtime : Runtime) (file : StagedFile) (staged : Bytes)
    (machine : Upload.Machine) (state : State)
    (hstaged : content state.tree file.path = some (some staged)) :
    CommitsAll deps.root file.path staged state (handled deps runtime file machine state).outcome
        (handled deps runtime file machine state).state ↔
      Harmless deps runtime file staged machine state := by
  cases hkey : pathFor deps.root (keyOf runtime file) with
  | error fault =>
    exact (commitsAll_of_refused hstaged hkey).trans (harmless_of_error hkey).symm
  | ok target =>
    rw [harmless_of_ok hkey]
    by_cases hpoint : (adoptPoint machine.fate state.tree file.path staged target).1 = .stored
    · cases hserver : machine.server
          (adoptPoint machine.fate state.tree file.path staged target).2 with
      | completes =>
        have hcommitted := commitsAll_of_completes hstaged hkey hpoint hserver
        exact iff_of_true hcommitted (Or.inl ⟨hpoint, hserver⟩)
      | fails code applied =>
        have hcommits := commitsAll_of_fails hstaged hkey hpoint hserver
        exact hcommits.trans (harmlessAt_of_fails hpoint hserver).symm
    · have hcommits := commitsAll_of_rejects hstaged hkey hpoint
      exact hcommits.trans (harmlessAt_of_ne hpoint).symm

/-- A CSV file that has been staged, the key it gets, and the disk before. -/
def stagedCsv : StagedFile :=
  { path := stagedPath, originalname := "a.csv", mimetype := "text/csv" }

def csvRuntime : Runtime :=
  { keyId := "k", recordId := "r", now := "2026-01-01T00:00:00.000Z", toLowerCase := id }

def csvPath : AbsolutePath := ⟨["data", "storage", "uploads", "k.csv"], by decide⟩

def beforeUpload : State :=
  { tree := stagedDisk, records := Foundation.ExpiringStore.empty, counters := fun _ ↦ 0 }

def csvDeps : Deps := { root := dataStorage, countsUploads := true }

/-- Redis is down. -/
def redisDown : Upload.Machine :=
  { server := fun _ ↦ .fails (.other "ECONNREFUSED") false }

theorem pathFor_csv : pathFor dataStorage (keyOf csvRuntime stagedCsv) = .ok csvPath := rfl

theorem adoptPoint_csv :
    adoptPoint (fun _ ↦ .completes) stagedDisk stagedPath [1, 2] csvPath = (.stored, 3) := by
  decide

/-- An upload of which every call completes. -/
theorem commitsAll_csv :
    content beforeUpload.tree stagedPath = some (some [1, 2]) ∧
      CommitsAll dataStorage stagedPath [1, 2] beforeUpload
        (handled csvDeps csvRuntime stagedCsv {} beforeUpload).outcome
        (handled csvDeps csvRuntime stagedCsv {} beforeUpload).state := by
  have hstaged : content beforeUpload.tree stagedPath = some (some [1, 2]) := by decide
  have hpoint : (adoptPoint ({} : Upload.Machine).fate beforeUpload.tree stagedPath [1, 2]
      csvPath).1 = .stored := congrArg Prod.fst adoptPoint_csv
  have hharmless : Harmless csvDeps csvRuntime stagedCsv [1, 2] {} beforeUpload :=
    Or.inr ⟨csvPath, pathFor_csv, Or.inl ⟨hpoint, rfl⟩⟩
  exact ⟨hstaged, (commitsAll_iff csvDeps csvRuntime stagedCsv [1, 2] {} beforeUpload hstaged).mpr
    hharmless⟩

/-- Redis refuses the record: the error is passed on, and the file stays in storage. -/
theorem not_commitsAll_csv :
    ¬ CommitsAll dataStorage stagedPath [1, 2] beforeUpload
      (handled csvDeps csvRuntime stagedCsv redisDown beforeUpload).outcome
      (handled csvDeps csvRuntime stagedCsv redisDown beforeUpload).state := by
  intro h
  have hstaged : content stagedDisk stagedPath = some (some [1, 2]) := by decide
  have hpoint : (adoptPoint redisDown.fate stagedDisk stagedPath [1, 2] csvPath).1 = .stored :=
    congrArg Prod.fst adoptPoint_csv
  have hserver : redisDown.server
      (adoptPoint redisDown.fate stagedDisk stagedPath [1, 2] csvPath).2 =
      .fails (.other "ECONNREFUSED") false := rfl
  have hcommits := @commitsAll_of_fails csvDeps csvRuntime stagedCsv [1, 2] redisDown beforeUpload
    hstaged csvPath pathFor_csv hpoint _ _ hserver
  rcases (hcommits.mp h).1.1 [1, 2] rfl with hsame | hheld
  · exact absurd hsame (by decide)
  · exact absurd hheld (by decide)

end FileForge.Files.UploadAtomicity
