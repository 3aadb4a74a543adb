import FileForge.Foundation.FileTree

/-!
# Local-disk storage

`LocalStorage` of `src/storage.ts`: the operations as programs over the file system, for a root that
the constructor has resolved. Every operation starts with `pathFor`, which resolves the key against
the root and refuses what lies outside.

A stream that is saved arrives as what its stages deliver (`Delivery`): `save` and `saveFrom` run
one `pipeline` each, so an error of any stage is an error of the write. `openStored` is `open`: it
looks at the path and hands over a read stream that has not been opened yet, so its result is the
path that the stream will open.

`pathFor_cases` is what the guard answers and `pathFor_inside` that what it lets through lies
inside the root; the calls of each operation follow in `PathConfinement`.
-/

set_option autoImplicit false
set_option relaxedAutoImplicit false

namespace FileForge.Storage.LocalStorage

open Foundation.Interaction Foundation.PosixPath Foundation.FileTree
open AbsolutePath

/-! ### The operations -/

/-- `StoredFile`. -/
structure StoredFile where
  key : String
  size : ℕ
  deriving DecidableEq, Repr

/-- A read stream that has not been opened yet, and the path it will open. -/
structure ReadStream where
  path : AbsolutePath
  deriving DecidableEq

/-- The root `/data/storage`. -/
def dataStorage : AbsolutePath := ⟨["data", "storage"], by decide⟩

/-- `pathFor`: resolves a key to an absolute path, refusing anything outside root. -/
def pathFor (root : AbsolutePath) (key : String) : Except NodeError AbsolutePath :=
  let full := resolve (join root.text key)
  if full.text ≠ root.text ∧ ¬ (root.text ++ "/").toList <+: full.text.toList then
    .error (.thrown ("Refusing key that escapes storage root: " ++ key))
  else .ok full

/-- What `save`, `saveFrom` and `adopt` answer with: the key and the size on disk. -/
def storedAt (key : String) (target : AbsolutePath) : Fs StoredFile := do
  let stats ← stat target
  return { key := key, size := stats.size }

/-- `save`: the source alone. -/
def save (root : AbsolutePath) (key : String) (source : Delivery) : Fs StoredFile := do
  let target ← Program.ofExcept (pathFor root key)
  mkdir target.dirname
  writeStream source target
  storedAt key target

/-- A stage of a pipeline: what it delivers of what it is delivered. -/
abbrev Stage := Delivery → Delivery

/-- `saveFrom`: the source through the stages, all in one pipeline. -/
def saveFrom (root : AbsolutePath) (key : String) (source : Delivery) (stages : List Stage) :
    Fs StoredFile := do
  let target ← Program.ofExcept (pathFor root key)
  mkdir target.dirname
  writeStream (stages.foldl (fun delivered stage ↦ stage delivered) source) target
  storedAt key target

/-- `adopt`: moves a local file in, by a rename or, across file systems, by a copy. -/
def adopt (root : AbsolutePath) (key : String) (localPath : AbsolutePath) : Fs StoredFile := do
  let target ← Program.ofExcept (pathFor root key)
  mkdir target.dirname
  tryCatch (rename localPath target) fun fault ↦
    if fault ≠ .system .exdev then throw fault
    else do
      copyStream localPath target
      rm localPath
  storedAt key target

/-- `open`: fails now when the path names nothing; the stream itself opens later. -/
def openStored (root : AbsolutePath) (key : String) : Fs ReadStream := do
  let path ← Program.ofExcept (pathFor root key)
  let _ ← stat path
  return { path := path }

/-- `delete`. -/
def delete (root : AbsolutePath) (key : String) : Fs Unit := do
  let path ← Program.ofExcept (pathFor root key)
  rm path

/-- `exists`: the path is resolved outside the `try`, so a refusal propagates. -/
def existsStored (root : AbsolutePath) (key : String) : Fs Bool := do
  let path ← Program.ofExcept (pathFor root key)
  tryCatch (do
    let _ ← stat path
    return true) fun _ ↦ return false

/-- `size`. -/
def size (root : AbsolutePath) (key : String) : Fs ℕ := do
  let path ← Program.ofExcept (pathFor root key)
  let stats ← stat path
  return stats.size

/-! ### The guard -/

/-- The path a key stands for below a root, before the guard. -/
def resolveKey (root : AbsolutePath) (key : String) : AbsolutePath := resolve (join root.text key)

/-- The guard lets the resolved path through or refuses the key with its message. -/
theorem pathFor_cases (root : AbsolutePath) (key : String) :
    pathFor root key = .ok (resolveKey root key) ∨
      pathFor root key =
        .error (.thrown ("Refusing key that escapes storage root: " ++ key)) := by
  simp only [pathFor]
  split_ifs
  · exact Or.inr rfl
  · exact Or.inl rfl

theorem pathFor_eq_ok {root full : AbsolutePath} {key : String} (h : pathFor root key = .ok full) :
    full = resolveKey root key := by
  rcases pathFor_cases root key with hok | herror
  · rw [hok, Except.ok.injEq] at h
    exact h.symm
  · rw [herror] at h
    cases h

/-- What the guard lets through lies inside the root. The guard compares texts: equality of texts is
equality of paths, and a text that starts with the root's text and a separator names a path
below. -/
theorem pathFor_inside {root full : AbsolutePath} {key : String}
    (h : pathFor root key = .ok full) : Inside root full := by
  have hfull := pathFor_eq_ok h
  subst hfull
  simp only [pathFor] at h
  split_ifs at h with hguard
  rw [not_and_or, not_not, not_not] at hguard
  rcases hguard with hsame | hbelow
  · rw [show resolveKey root key = root from text_injective hsame]
    exact Inside.refl root
  · exact segments_prefix_of_text hbelow

/-- The key names an entry of a directory of the storage, one level below it. The guard lets it
through under every root but `/`, below which it lets nothing through. -/
structure DirectChild (root : AbsolutePath) (directory key : String) : Prop where
  resolves : ∃ name, (resolveKey root key).segments = root.segments ++ [directory, name]
  admitted : root.segments ≠ [] → pathFor root key = .ok (resolveKey root key)

theorem directChild_of_names (root : AbsolutePath) {directory name : String}
    (hdirectory : IsName directory) (hname : IsName name) :
    DirectChild root directory (directory ++ "/" ++ name) where
  resolves := ⟨name, resolve_join_names root hdirectory hname⟩
  admitted := by
    intro hroot
    have hbelow : (root.text ++ "/").toList <+:
        (resolveKey root (directory ++ "/" ++ name)).text.toList :=
      text_prefix_of_segments hroot (resolve_join_names root hdirectory hname)
    exact if_neg fun hrefused ↦ hrefused.2 hbelow

/-! ### Operations on a key that the guard lets through -/

section Admitted

variable {root path : AbsolutePath} {key : String} (hpath : pathFor root key = .ok path)

include hpath

theorem existsStored_of_ok :
    existsStored root key = tryCatch (do
      let _ ← stat path
      return true) fun _ ↦ return false := by
  rw [existsStored, hpath]
  rfl

theorem size_of_ok :
    size root key = (do
      let stats ← stat path
      return stats.size) := by
  rw [size, hpath]
  rfl

theorem openStored_of_ok :
    openStored root key = (do
      let _ ← stat path
      return { path := path }) := by
  rw [openStored, hpath]
  rfl

/-- Assumes: calls that complete. `exists` says whether the path names anything. -/
theorem run_existsStored (tree : Tree) :
    (Program.run ({} : Machine).world (existsStored root key) 0 tree).outcome =
      .ok (tree.lookup path).isSome := by
  rw [existsStored_of_ok hpath, Program.run_handle, Program.run_bind, stat, Program.run_perform]
  cases hnode : tree.lookup path <;> simp [Machine.world, answer, hnode]

end Admitted

end FileForge.Storage.LocalStorage
