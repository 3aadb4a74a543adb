import FileForge.Foundation.FileWrites
import FileForge.Storage.LocalStorage

/-!
# Where the storage operations reach

Every operation of `LocalStorage` resolves its key with `pathFor` before it calls the file system,
so a key that escapes the root is refused without a call (`program_of_refused`), and otherwise the
paths that an operation derives from the key lie inside the root (`program_calls`).

Two calls name a path outside. `adopt` is given a local file to move and names it. And `pathFor`
admits a key that stands for the root itself, whose directory the writing operations hand to
`mkdir`: `save` under `.` asks for the directory above the root
(`save_root_outside`). `storage_confined` states confinement with these two exceptions.

`changes_confined` is what this means for the file system: outside the root nothing changes but the
local file of `adopt` and the directories above the root, which a recursive `mkdir` makes where they
are missing.
-/

set_option autoImplicit false
set_option relaxedAutoImplicit false

namespace FileForge.Storage.PathConfinement

open Foundation.Interaction Foundation.PosixPath Foundation.FileTree Foundation.FileWrites
open LocalStorage
open AbsolutePath

/-- The operations of the storage interface. -/
inductive Operation
  | save (source : Delivery)
  | saveFrom (source : Delivery) (stages : List Stage)
  | adopt (localPath : AbsolutePath)
  | openStored
  | delete
  | existsStored
  | size

/-- An operation on a key, its result left out. -/
def Operation.program (root : AbsolutePath) (key : String) : Operation → Fs Unit
  | .save source => do let _ ← LocalStorage.save root key source
  | .saveFrom source stages => do let _ ← LocalStorage.saveFrom root key source stages
  | .adopt localPath => do let _ ← LocalStorage.adopt root key localPath
  | .openStored => do let _ ← LocalStorage.openStored root key
  | .delete => LocalStorage.delete root key
  | .existsStored => do let _ ← LocalStorage.existsStored root key
  | .size => do let _ ← LocalStorage.size root key

/-- The local files an operation is given. -/
def Operation.localPaths : Operation → List AbsolutePath
  | .adopt localPath => [localPath]
  | _ => []

/-- The operations that write, and create the directory of their target first. -/
def Operation.writes : Operation → Bool
  | .save _ | .saveFrom _ _ | .adopt _ => true
  | _ => false

/-- All paths of a call lie inside the root. -/
def CallInside (root : AbsolutePath) (call : Call) : Prop := ∀ path ∈ call.paths, Inside root path

/-- The calls of an operation on a path derived from its key: inside the root, on a local file it
was given, or the `mkdir` of the root's own directory. -/
def CallConfined (root full : AbsolutePath) (operation : Operation) (call : Call) : Prop :=
  ∀ path ∈ call.paths, Inside root path ∨ path ∈ operation.localPaths ∨
    (operation.writes = true ∧ full = root ∧ call = .mkdir root.dirname)

/-- The directory of a path properly inside the root is inside the root. -/
theorem inside_dirname {root path : AbsolutePath} (h : Inside root path) (hne : path ≠ root) :
    Inside root path.dirname := by
  obtain ⟨rest, hrest⟩ := h
  have hrestNe : rest ≠ [] := by
    intro hempty
    rw [hempty, List.append_nil] at hrest
    exact hne (AbsolutePath.ext hrest.symm)
  refine ⟨rest.dropLast, ?_⟩
  show root.segments ++ rest.dropLast = path.segments.dropLast
  rw [← hrest, List.dropLast_append_of_ne_nil hrestNe]

/-- A call on one path inside the root is confined. -/
theorem callConfined_of_inside {root full path : AbsolutePath} {operation : Operation} {call : Call}
    (hpaths : call.paths = [path]) (h : Inside root path) :
    CallConfined root full operation call := by
  intro other hother
  rw [hpaths, List.mem_singleton] at hother
  exact Or.inl (hother ▸ h)

/-- The `mkdir` of a writing operation is confined. -/
theorem mkdir_confined {root full : AbsolutePath} {operation : Operation} (h : Inside root full)
    (hwrites : operation.writes = true) :
    CallConfined root full operation (.mkdir full.dirname) := by
  by_cases hroot : full = root
  · intro path _
    exact Or.inr (Or.inr ⟨hwrites, hroot, by rw [hroot]⟩)
  · exact callConfined_of_inside rfl (inside_dirname h hroot)

/-- A call that moves a local file to a path inside the root is confined. -/
theorem move_confined {root full localPath : AbsolutePath} {operation : Operation} {call : Call}
    (h : Inside root full) (hlocal : localPath ∈ operation.localPaths)
    (hpaths : ∀ path ∈ call.paths, path = localPath ∨ path = full) :
    CallConfined root full operation call := by
  intro path hpath
  rcases hpaths path hpath with rfl | rfl
  · exact Or.inr (Or.inl hlocal)
  · exact Or.inl h

/-- All calls that an operation can make when the guard has let its key through. -/
theorem allCalls_program {root full : AbsolutePath} {key : String}
    (hpath : pathFor root key = .ok full) (operation : Operation) {allowed : Call → Prop}
    (hmkdir : operation.writes = true → allowed (.mkdir full.dirname))
    (hstat : allowed (.stat full)) (hremove : allowed (.remove full))
    (hwrite : ∀ delivery, allowed (.writeStream delivery full))
    (hmove : ∀ localPath ∈ operation.localPaths, allowed (.rename localPath full) ∧
      allowed (.copyStream localPath full) ∧ allowed (.remove localPath)) :
    (operation.program root key).AllCalls allowed := by
  have hstated : (stat full).AllCalls allowed := Program.allCalls_perform hstat
  have hstored : (storedAt key full).AllCalls allowed :=
    Program.allCalls_bind hstated fun _ ↦ .finish _
  cases operation with
  | save source =>
    simp only [Operation.program, LocalStorage.save, hpath, Program.ofExcept_ok_bind]
    refine Program.allCalls_bind (Program.allCalls_bind
      (Program.allCalls_perform (hmkdir rfl)) fun _ ↦ ?_) fun _ ↦ .finish _
    exact Program.allCalls_bind (Program.allCalls_perform (hwrite source)) fun _ ↦ hstored
  | saveFrom source stages =>
    simp only [Operation.program, LocalStorage.saveFrom, hpath, Program.ofExcept_ok_bind]
    refine Program.allCalls_bind (Program.allCalls_bind
      (Program.allCalls_perform (hmkdir rfl)) fun _ ↦ ?_) fun _ ↦ .finish _
    exact Program.allCalls_bind (Program.allCalls_perform (hwrite _)) fun _ ↦ hstored
  | adopt localPath =>
    obtain ⟨hrename, hcopy, hrm⟩ := hmove localPath List.mem_cons_self
    simp only [Operation.program, LocalStorage.adopt, hpath, Program.ofExcept_ok_bind]
    refine Program.allCalls_bind (Program.allCalls_bind
      (Program.allCalls_perform (hmkdir rfl)) fun _ ↦ ?_) fun _ ↦ .finish _
    refine Program.allCalls_bind (Program.allCalls_handle (Program.allCalls_perform hrename)
      fun fault ↦ ?_) fun _ ↦ hstored
    split_ifs
    · exact .finish _
    · exact Program.allCalls_bind (Program.allCalls_perform hcopy) fun _ ↦
        Program.allCalls_perform hrm
  | openStored =>
    simp only [Operation.program, LocalStorage.openStored, hpath, Program.ofExcept_ok_bind]
    exact Program.allCalls_bind (Program.allCalls_bind hstated fun _ ↦ .finish _) fun _ ↦ .finish _
  | delete =>
    simp only [Operation.program, LocalStorage.delete, hpath, Program.ofExcept_ok_bind]
    exact Program.allCalls_perform hremove
  | existsStored =>
    simp only [Operation.program, LocalStorage.existsStored, hpath, Program.ofExcept_ok_bind]
    refine Program.allCalls_bind (Program.allCalls_handle ?_ fun _ ↦ .finish _) fun _ ↦ .finish _
    exact Program.allCalls_bind hstated fun _ ↦ .finish _
  | size =>
    simp only [Operation.program, LocalStorage.size, hpath, Program.ofExcept_ok_bind]
    exact Program.allCalls_bind (Program.allCalls_bind hstated fun _ ↦ .finish _) fun _ ↦ .finish _

/-- A call that is confined and makes no directory but that of the path. -/
def CallPlain (root full : AbsolutePath) (operation : Operation) (call : Call) : Prop :=
  CallConfined root full operation call ∧
    ∀ directory, call = .mkdir directory → directory = full.dirname

/-- The calls of an operation whose key the guard has let through. -/
theorem program_calls {root full : AbsolutePath} {key : String}
    (hpath : pathFor root key = .ok full) (operation : Operation) :
    (operation.program root key).AllCalls (CallPlain root full operation) := by
  have hinside := pathFor_inside hpath
  refine allCalls_program hpath operation
    (fun hwrites ↦ ⟨mkdir_confined hinside hwrites, fun _ hmkdir ↦ (Call.mkdir.inj hmkdir).symm⟩)
    ⟨callConfined_of_inside rfl hinside, fun _ ↦ nofun⟩
    ⟨callConfined_of_inside rfl hinside, fun _ ↦ nofun⟩
    (fun _ ↦ ⟨callConfined_of_inside rfl hinside, fun _ ↦ nofun⟩)
    fun localPath hlocal ↦ ⟨⟨?_, fun _ ↦ nofun⟩, ⟨?_, fun _ ↦ nofun⟩, ⟨?_, fun _ ↦ nofun⟩⟩
  · exact move_confined hinside hlocal fun path hmem ↦ by simpa [Call.paths] using hmem
  · exact move_confined hinside hlocal fun path hmem ↦ by simpa [Call.paths] using hmem
  · exact move_confined hinside hlocal fun path hmem ↦ Or.inl (List.mem_singleton.mp hmem)

/-- Assumes: a key that the guard refuses. The operation ends with the refusal, without a call. -/
theorem program_of_refused {root : AbsolutePath} {key : String} {fault : NodeError}
    (h : pathFor root key = .error fault) (operation : Operation) :
    operation.program root key = .finish (.error fault) := by
  cases operation <;>
    simp only [Operation.program, LocalStorage.save, LocalStorage.saveFrom, LocalStorage.adopt,
      LocalStorage.openStored, LocalStorage.delete, LocalStorage.existsStored, LocalStorage.size,
      h] <;> rfl

/-- Storage confinement. For every root and key, `pathFor` refuses the key or returns a path inside
the root. Every path that an operation hands to the file system lies inside the root, except for
the local file that `adopt` is given and, when the key stands for the root itself, the root's own
directory, which the writing operations hand to `mkdir`. A refused key ends every operation, among
them `exists`, with the refusal. -/
theorem storage_confined (root : AbsolutePath) (key : String) :
    ((∃ message, pathFor root key = .error (.thrown message)) ∨
      ∃ full, pathFor root key = .ok full ∧ root.segments <+: full.segments) ∧
    (∀ operation : Operation, (operation.program root key).AllCalls
      (CallConfined root (resolveKey root key) operation)) ∧
    ∀ fault, pathFor root key = .error fault →
      existsStored root key = .finish (.error fault) ∧
        ∀ operation : Operation, operation.program root key = .finish (.error fault) := by
  refine ⟨?_, fun operation ↦ ?_, fun fault hrefused ↦ ⟨?_, program_of_refused hrefused⟩⟩
  · rcases pathFor_cases root key with hok | herror
    · exact Or.inr ⟨_, hok, pathFor_inside hok⟩
    · exact Or.inl ⟨_, herror⟩
  · rcases pathFor_cases root key with hok | herror
    · exact (program_calls hok operation).mono fun _ hcall ↦ hcall.1
    · rw [program_of_refused herror operation]
      exact .finish _
  · rw [existsStored, hrefused]
    rfl

/-- Not every path lies inside the root: `save` under `.` hands `/data` to `mkdir`, and `adopt`
moves `/tmp/upload`. -/
theorem save_root_outside :
    ¬ ((Operation.save ⟨[], none⟩).program dataStorage ".").AllCalls (CallInside dataStorage) ∧
      ¬ ((Operation.adopt ⟨["tmp", "upload"], by decide⟩).program dataStorage "uploads/a").AllCalls
        (CallInside dataStorage) := by
  constructor
  · intro h
    have hmkdir : CallInside dataStorage (.mkdir ⟨["data"], by decide⟩) :=
      (Program.AllCalls.of_call h).1
    exact absurd (hmkdir _ List.mem_cons_self) (by decide)
  · intro h
    have hrename : CallInside dataStorage (.rename ⟨["tmp", "upload"], by decide⟩
        ⟨["data", "storage", "uploads", "a"], by decide⟩) :=
      (Program.AllCalls.of_call ((Program.AllCalls.of_call h).2 (.ok ()))).1
    exact absurd (hrename _ List.mem_cons_self) (by decide)

/-! ### What changes -/

/-- Outside the root nothing has changed but the local files of the operation, and directories above
the root that were missing. -/
def ChangesConfined (root : AbsolutePath) (operation : Operation) (before after : Tree) : Prop :=
  ∀ path, ¬ Inside root path → path ∉ operation.localPaths →
    after.lookup path = before.lookup path ∨
      Inside path root ∧ before.lookup path = none ∧ after.lookup path = some .directory

/-- What `mkdir` puts on its way lies above its directory. -/
theorem inside_of_made {fate : Fate} {tree : Tree} {directory path : AbsolutePath}
    (h : path ∈ made fate tree directory) : Inside path directory := by
  obtain ⟨depth, -, rfl⟩ := List.mem_map.mp (made_cases h).1
  exact List.take_prefix _ _

/-- Of two directories above one path, one is above the other. -/
theorem inside_of_not_inside {root path below : AbsolutePath} (hroot : Inside root below)
    (hpath : Inside path below) (h : ¬ Inside root path) : Inside path root :=
  (List.prefix_or_prefix_of_prefix hpath hroot).resolve_right h

/-- One call. -/
theorem ChangesConfined.onCall {root full : AbsolutePath} {operation : Operation}
    {before tree : Tree} {call : Call} (h : ChangesConfined root operation before tree)
    (hinside : Inside root full) (hcall : CallPlain root full operation call) (fate : Fate)
    (now : ℚ) : ChangesConfined root operation before (answer fate now call tree).2 := by
  obtain ⟨hconfined, hdirectory⟩ := hcall
  intro path houtside hforeign
  by_cases hput : ∃ directory, call = .mkdir directory ∧ path ∈ made fate tree directory
  · obtain ⟨directory, rfl, hmade⟩ := hput
    have hnode : (answer fate now (.mkdir directory) tree).2.lookup path = some .directory := by
      show (prepared fate tree directory).lookup path = _
      rw [lookup_prepared, if_pos hmade]
    have habove : Inside path full := by
      rw [hdirectory directory rfl] at hmade
      exact (inside_of_made hmade).trans (List.dropLast_prefix _)
    rcases h path houtside hforeign with hsame | ⟨habove, hmissing, -⟩
    · rcases content_of_made hmade with hold | hmissing
      · obtain ⟨node, hlookup, hheld⟩ := Option.map_eq_some_iff.mp hold
        left
        rw [hnode, ← hsame, hlookup]
        cases node with
        | directory => rfl
        | file bytes mtimeMs => cases hheld
      · exact Or.inr ⟨inside_of_not_inside hinside habove houtside, hsame ▸ hmissing, hnode⟩
    · exact Or.inr ⟨habove, hmissing, hnode⟩
  · have hkept : (answer fate now call tree).2.lookup path = tree.lookup path := by
      refine lookup_answer (fun hmem ↦ ?_) fun directory hmkdir hmade ↦
        hput ⟨directory, hmkdir, hmade⟩
      rcases hconfined path hmem with hinside | hlocal | ⟨-, -, hmkdir⟩
      · exact absurd hinside houtside
      · exact absurd hlocal hforeign
      · exact ⟨_, hmkdir⟩
    rw [hkept]
    exact h path houtside hforeign

/-- Whatever becomes of the calls of an operation, outside the root it changes the local file that it
is given, and makes directories above the root where they are missing. Assumes: nobody else changes
the tree. -/
theorem changes_confined (root : AbsolutePath) (key : String) (operation : Operation)
    (machine : Machine) (hquiet : ∀ calls tree, machine.others calls tree = tree) (calls : ℕ)
    (tree : Tree) : ChangesConfined root operation tree
      (Program.run machine.world (operation.program root key) calls tree).state := by
  have hstart : ChangesConfined root operation tree tree := fun path _ _ ↦ Or.inl rfl
  rcases pathFor_cases root key with hpath | hrefused
  · refine Program.run_induction (fun calls request state hplain hstate ↦ ?_)
      (program_calls hpath operation) calls tree hstart
    rw [Machine.world, hquiet]
    exact hstate.onCall (pathFor_inside hpath) hplain _ _
  · rw [program_of_refused hrefused operation]
    exact hstart

end FileForge.Storage.PathConfinement
