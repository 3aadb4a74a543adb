import FileForge.Foundation.FileTree
import Mathlib.Algebra.Order.Ring.Unbundled.Rat

/-!
# The cleanup sweep

`cleanupOldFiles` of `src/jobs/cleanup.ts` as a program over the file system: it lists the root, and
in each directory under it removes the regular files that were last written before the cutoff. A
failure to look at a directory passes over it, and a failure on one file is counted and passed over.

`cleanupOldFiles_keeps` is what a sweep cannot do, whatever becomes of its calls: a file that was
written at the cutoff or later is still there afterwards, with its bytes.
-/

set_option autoImplicit false
set_option relaxedAutoImplicit false

namespace FileForge.Jobs.Cleanup

open Foundation.Interaction Foundation.PosixPath Foundation.FileTree

/-! ### The program -/

structure CleanupResult where
  scanned : ℕ := 0
  deleted : ℕ := 0
  bytesFreed : ℕ := 0
  /-- Files that could not be removed. -/
  errors : ℕ := 0
  deriving DecidableEq, Repr

/-- A call whose failure is passed over. -/
def attempt {Result : Type} (program : Fs Result) : Fs (Option Result) :=
  tryCatch (do
    let result ← program
    return some result) fun _ ↦ return none

/-- The moment before which a file is old. -/
def cutoffOf (maxAgeHours now : ℚ) : ℚ := now - maxAgeHours * 60 * 60 * 1000

/-- One path in a directory. -/
def sweepPath (cutoff : ℚ) (path : AbsolutePath) (result : CleanupResult) : Fs CleanupResult :=
  let scanned := { result with scanned := result.scanned + 1 }
  tryCatch (do
    let fileStats ← stat path
    if fileStats.isFile = false then return scanned
    else if cutoff ≤ fileStats.mtimeMs then return scanned
    else do
      rm path
      return { scanned with
        deleted := scanned.deleted + 1, bytesFreed := scanned.bytesFreed + fileStats.size })
    fun _ ↦ return { scanned with errors := scanned.errors + 1 }

/-- One entry of a directory. -/
def sweepFile (cutoff : ℚ) (directory : AbsolutePath) (result : CleanupResult) (name : String) :
    Fs CleanupResult :=
  sweepPath cutoff (resolve (join directory.text name)) result

/-- One directory under the root. -/
def sweepDirectory (cutoff : ℚ) (directory : AbsolutePath) (result : CleanupResult) :
    Fs CleanupResult := do
  match ← attempt (stat directory) with
  | none => return result
  | some stats =>
    if stats.isFile then return result
    else
      match ← attempt (readdir directory) with
      | none => return result
      | some files => files.foldlM (sweepFile cutoff directory) result

/-- One entry of the root. -/
def sweepEntry (cutoff : ℚ) (root : AbsolutePath) (result : CleanupResult) (entry : String) :
    Fs CleanupResult :=
  sweepDirectory cutoff (resolve (join root.text entry)) result

/-- Deletes files older than `maxAgeHours` under the root, one directory level deep. -/
def cleanupOldFiles (root : AbsolutePath) (maxAgeHours now : ℚ) : Fs CleanupResult := do
  match ← attempt (readdir root) with
  | none => return {}
  | some entries => entries.foldlM (sweepEntry (cutoffOf maxAgeHours now) root) {}

/-! ### What a sweep keeps -/

/-- The path names a regular file with these bytes and this moment of its last write. -/
def Holds (path : AbsolutePath) (bytes : Bytes) (mtimeMs : ℚ) (tree : Tree) : Prop :=
  tree.lookup path = some (.file bytes mtimeMs)

/-- The program keeps the file, however it ends. -/
def Keeps (machine : Machine) (path : AbsolutePath) (bytes : Bytes) (mtimeMs : ℚ) {Result : Type}
    (program : Fs Result) : Prop :=
  Program.Ensures machine.world (Holds path bytes mtimeMs) program
    (fun _ tree ↦ Holds path bytes mtimeMs tree) fun _ tree ↦ Holds path bytes mtimeMs tree

section Keeps

variable {machine : Machine} {path : AbsolutePath} {bytes : Bytes} {mtimeMs : ℚ}

theorem keeps_attempt {Result : Type} {program : Fs Result}
    (h : Keeps machine path bytes mtimeMs program) :
    Keeps machine path bytes mtimeMs (attempt program) := by
  refine Program.ensures_handle ?_ fun _ ↦ Program.ensures_pure fun _ h ↦ h
  exact Program.ensures_bind h fun _ ↦ Program.ensures_pure fun _ h ↦ h

variable (hothers : ∀ calls tree, Holds path bytes mtimeMs tree →
  Holds path bytes mtimeMs (machine.others calls tree))

include hothers

/-- `stat` leaves the tree, and reports the file as it is. -/
theorem ensures_stat (target : AbsolutePath) :
    Program.Ensures machine.world (Holds path bytes mtimeMs) (stat target)
      (fun stats tree ↦ Holds path bytes mtimeMs tree ∧
        (target = path → stats = (Node.file bytes mtimeMs).stats))
      fun _ tree ↦ Holds path bytes mtimeMs tree := by
  refine Program.ensures_perform fun calls tree hholds ↦ ?_
  have hafter := hothers calls tree hholds
  show Program.Settles _ _ (answer (machine.fate calls) _ (.stat target) _).1
    (answer (machine.fate calls) _ (.stat target) _).2
  cases machine.fate calls with
  | fails code written => exact hafter
  | completes =>
    cases hnode : (machine.others calls tree).lookup target with
    | none =>
      simp only [answer, hnode]
      exact hafter
    | some node =>
      simp only [answer, hnode]
      refine ⟨hafter, fun htarget ↦ ?_⟩
      rw [htarget, hafter] at hnode
      rw [← Option.some.inj hnode]

theorem keeps_stat (target : AbsolutePath) : Keeps machine path bytes mtimeMs (stat target) :=
  (ensures_stat hothers target).weaken (fun _ h ↦ h) (fun _ _ h ↦ h.1) fun _ _ h ↦ h

/-- `readdir` leaves the tree. -/
theorem keeps_readdir (directory : AbsolutePath) :
    Keeps machine path bytes mtimeMs (readdir directory) := by
  refine Program.ensures_perform fun calls tree hholds ↦ ?_
  have hafter := hothers calls tree hholds
  show Program.Settles _ _ (answer (machine.fate calls) _ (.readdir directory) _).1
    (answer (machine.fate calls) _ (.readdir directory) _).2
  cases machine.fate calls with
  | fails code written => exact hafter
  | completes =>
    cases hnode : (machine.others calls tree).lookup directory with
    | none =>
      simp only [answer, hnode]
      exact hafter
    | some node =>
      cases node <;> simp only [answer, hnode] <;> exact hafter

/-- `rm` of another path leaves the file. -/
theorem keeps_rm {target : AbsolutePath} (htarget : path ≠ target) :
    Keeps machine path bytes mtimeMs (rm target) := by
  refine Program.ensures_perform fun calls tree hholds ↦ ?_
  have hafter := hothers calls tree hholds
  have herased : Holds path bytes mtimeMs ((machine.others calls tree).erase target) :=
    (AList.lookup_erase_ne htarget).trans hafter
  show Program.Settles _ _ (answer (machine.fate calls) _ (.remove target) _).1
    (answer (machine.fate calls) _ (.remove target) _).2
  cases machine.fate calls with
  | fails code written => exact hafter
  | completes =>
    cases hnode : (machine.others calls tree).lookup target with
    | none =>
      simp only [answer, hnode]
      split_ifs
      · exact hafter
      · exact hafter
    | some node =>
      cases node with
      | file bytes mtimeMs =>
        simp only [answer, hnode]
        exact herased
      | directory =>
        simp only [answer, hnode]
        exact hafter

/-- Assumes: the file was written at the cutoff or later. When its turn comes `stat` reports it so,
and it is passed over. -/
theorem keeps_sweepPath {cutoff : ℚ} (hyoung : cutoff ≤ mtimeMs) (target : AbsolutePath)
    (result : CleanupResult) :
    Keeps machine path bytes mtimeMs (sweepPath cutoff target result) := by
  refine Program.ensures_handle ?_ fun _ ↦ Program.ensures_pure fun _ h ↦ h
  refine Program.ensures_bind (ensures_stat hothers _) fun stats ↦ ?_
  split_ifs with hfile hrecent
  · exact Program.ensures_pure fun _ h ↦ h.1
  · exact Program.ensures_pure fun _ h ↦ h.1
  · by_cases hpath : target = path
    · intro calls tree hholds
      rw [hholds.2 hpath] at hrecent
      exact absurd hyoung hrecent
    · have hrest : Keeps machine path bytes mtimeMs (do
          rm target
          return ({ result with
            scanned := result.scanned + 1, deleted := result.deleted + 1
            bytesFreed := result.bytesFreed + stats.size } : CleanupResult)) :=
        Program.ensures_bind (keeps_rm hothers (Ne.symm hpath))
          fun _ ↦ Program.ensures_pure fun _ h ↦ h
      exact hrest.weaken (fun _ h ↦ h.1) (fun _ _ h ↦ h) fun _ _ h ↦ h

theorem keeps_sweepDirectory {cutoff : ℚ} (hyoung : cutoff ≤ mtimeMs) (directory : AbsolutePath)
    (result : CleanupResult) :
    Keeps machine path bytes mtimeMs (sweepDirectory cutoff directory result) := by
  refine Program.ensures_bind (keeps_attempt (keeps_stat hothers _)) fun stats ↦ ?_
  cases stats with
  | none => exact Program.ensures_pure fun _ h ↦ h
  | some stats =>
    show Program.Ensures _ _ (if stats.isFile then _ else _) _ _
    split_ifs with hfile
    · exact Program.ensures_pure fun _ h ↦ h
    · refine Program.ensures_bind (keeps_attempt (keeps_readdir hothers _)) fun files ↦ ?_
      cases files with
      | none => exact Program.ensures_pure fun _ h ↦ h
      | some files =>
        exact Program.ensures_foldlM (fun _ _ ↦ keeps_sweepPath hothers hyoung _ _) files _

/-- A sweep keeps a file that was written at its cutoff or later, with its bytes, whatever becomes
of its calls. Assumes: so do the other processes. -/
theorem cleanupOldFiles_keeps {maxAgeHours now : ℚ} (hyoung : cutoffOf maxAgeHours now ≤ mtimeMs)
    (root : AbsolutePath) :
    Keeps machine path bytes mtimeMs (cleanupOldFiles root maxAgeHours now) := by
  refine Program.ensures_bind (keeps_attempt (keeps_readdir hothers root)) fun entries ↦ ?_
  cases entries with
  | none => exact Program.ensures_pure fun _ h ↦ h
  | some entries =>
    exact Program.ensures_foldlM (fun _ _ ↦ keeps_sweepDirectory hothers hyoung _ _) entries _

end Keeps

/-! ### A sweep whose calls complete -/

section Completes

variable {tree : Tree}

/-- An old regular file is removed. -/
theorem run_sweepPath_of_old {path : AbsolutePath} {bytes : Bytes} {mtimeMs cutoff : ℚ}
    (hfile : Holds path bytes mtimeMs tree) (hold : ¬ cutoff ≤ mtimeMs) (result : CleanupResult)
    (calls : ℕ) :
    Program.run ({} : Machine).world (sweepPath cutoff path result) calls tree =
      ⟨.ok { result with
        scanned := result.scanned + 1, deleted := result.deleted + 1
        bytesFreed := result.bytesFreed + bytes.length }, calls + 2, tree.erase path⟩ := by
  have hnode : tree.lookup path = some (.file bytes mtimeMs) := hfile
  have hstat : Program.run ({} : Machine).world (stat path) calls tree =
      ⟨.ok (Node.file bytes mtimeMs).stats, calls + 1, tree⟩ := by
    simp [stat, Machine.world, answer, hnode]
  have hrm : Program.run ({} : Machine).world (rm path) (calls + 1) tree =
      ⟨.ok (), calls + 2, tree.erase path⟩ := by
    simp [rm, Machine.world, answer, hnode]
  have hregular : ¬ (Node.file bytes mtimeMs).stats.isFile = false := nofun
  have hbefore : ¬ cutoff ≤ (Node.file bytes mtimeMs).stats.mtimeMs := hold
  rw [sweepPath, Program.run_handle, Program.run_bind, hstat, Program.Ended.andThen_ok,
    if_neg hregular, if_neg hbefore, Program.run_bind, hrm]
  rfl

/-- The entries of a directory are swept one after the other. -/
theorem run_sweepDirectory {directory : AbsolutePath}
    (hdirectory : tree.lookup directory = some .directory) (cutoff : ℚ) (result : CleanupResult)
    (calls : ℕ) :
    Program.run ({} : Machine).world (sweepDirectory cutoff directory result) calls tree =
      Program.run ({} : Machine).world
        ((children tree directory).foldlM (sweepFile cutoff directory) result) (calls + 2)
        tree := by
  have hstat : Program.run ({} : Machine).world (attempt (stat directory)) calls tree =
      ⟨.ok (some Node.directory.stats), calls + 1, tree⟩ := by
    rw [attempt, Program.run_handle, Program.run_bind]
    simp [stat, Machine.world, answer, hdirectory]
  have hreaddir : Program.run ({} : Machine).world (attempt (readdir directory)) (calls + 1) tree =
      ⟨.ok (some (children tree directory)), calls + 2, tree⟩ := by
    rw [attempt, Program.run_handle, Program.run_bind]
    simp [readdir, Machine.world, answer, hdirectory]
  rw [sweepDirectory, Program.run_bind, hstat, Program.Ended.andThen_ok]
  show Program.run _ (attempt (readdir directory) >>= _) _ _ = _
  rw [Program.run_bind, hreaddir, Program.Ended.andThen_ok]

/-- The entries of the root are swept one after the other. -/
theorem run_cleanupOldFiles {root : AbsolutePath} (hroot : tree.lookup root = some .directory)
    (maxAgeHours now : ℚ) (calls : ℕ) :
    Program.run ({} : Machine).world (cleanupOldFiles root maxAgeHours now) calls tree =
      Program.run ({} : Machine).world
        ((children tree root).foldlM (sweepEntry (cutoffOf maxAgeHours now) root) {}) (calls + 1)
        tree := by
  have hreaddir : Program.run ({} : Machine).world (attempt (readdir root)) calls tree =
      ⟨.ok (some (children tree root)), calls + 1, tree⟩ := by
    rw [attempt, Program.run_handle, Program.run_bind]
    simp [readdir, Machine.world, answer, hroot]
  rw [cleanupOldFiles, Program.run_bind, hreaddir, Program.Ended.andThen_ok]

end Completes

end FileForge.Jobs.Cleanup
