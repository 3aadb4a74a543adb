import FileForge.Foundation.BlobStore
import FileForge.Foundation.Execution
import FileForge.Foundation.Interruption
import FileForge.Storage.Atomicity

/-!
# Local-disk storage as a store of blobs

`LocalStorage` keeps blobs in files, and its callers know nothing of the directories above them.
Here is what the interface `Storage` promises them: in every run it answers as a store of blobs does,
for the keys that the service makes, each an entry of a directory of the storage (`KeyLayout` says
so of uploads and of images, `OutputKeys` of the products of tables). The calls of an operation may
fail in any way; other programs may put files elsewhere, and a sweep may take some of the storage's
own.

`Represents` ties a tree to the blobs that it holds. `served` is one operation: what `Atomicity` says
of writes, and one lemma for each reader. `steps_refine` goes on from there to every run.
-/

set_option autoImplicit false
set_option relaxedAutoImplicit false

namespace FileForge.Storage.Refinement

open Foundation.Interaction Foundation.PosixPath Foundation.FileTree Foundation.FileWrites
open Foundation.Execution
open Foundation.PosixPath.AbsolutePath (Inside)
open Foundation.BlobStore (Blobs Request Reply Event Fails Step Runs serve
  step_of_serve)
open LocalStorage Atomicity

/-! ### Keys -/

/-- A key as the service makes them: an entry of a directory of the storage. -/
structure Key where
  directory : String
  name : String
  isDirectory : IsName directory
  isEntry : IsName name
  deriving DecidableEq

namespace Key

def text (key : Key) : String := key.directory ++ "/" ++ key.name

/-- The directory of the key, below a root. -/
def parent (root : AbsolutePath) (key : Key) : AbsolutePath :=
  ⟨root.segments ++ [key.directory], fun name hname ↦ by
    rcases List.mem_append.mp hname with hroot | hlast
    · exact root.names name hroot
    · exact List.mem_singleton.mp hlast ▸ key.isDirectory⟩

def path (root : AbsolutePath) (key : Key) : AbsolutePath :=
  ⟨root.segments ++ [key.directory, key.name], fun name hname ↦ by
    rcases List.mem_append.mp hname with hroot | hlast
    · exact root.names name hroot
    · rcases List.mem_pair.mp hlast with rfl | rfl
      · exact key.isDirectory
      · exact key.isEntry⟩

variable (root : AbsolutePath) (key : Key)

theorem dirname_path : (key.path root).dirname = key.parent root := by
  apply AbsolutePath.ext
  show (root.segments ++ [key.directory, key.name]).dropLast = root.segments ++ [key.directory]
  rw [List.dropLast_append_of_ne_nil (List.cons_ne_nil _ _)]
  rfl

theorem path_injective : Function.Injective (path root) := by
  intro first second h
  have hsegments := List.append_cancel_left (congrArg AbsolutePath.segments h)
  obtain ⟨hdirectory, hname⟩ := List.cons.inj hsegments
  cases first
  cases second
  cases hdirectory
  cases hname
  rfl

/-- Assumes: the root is not `/`, below which the guard lets nothing through. -/
theorem pathFor_text {root : AbsolutePath} (hroot : root.segments ≠ []) :
    pathFor root key.text = .ok (key.path root) := by
  show pathFor root (key.directory ++ "/" ++ key.name) = _
  rw [(directChild_of_names root key.isDirectory key.isEntry).admitted hroot]
  exact congrArg Except.ok
    (AbsolutePath.ext (resolve_join_names root key.isDirectory key.isEntry))

theorem inside_path : Inside root (key.path root) := List.prefix_append _ _

theorem inside_parent : Inside root (key.parent root) := List.prefix_append _ _

/-- What lies above a key is short. -/
theorem length_of_above {path : AbsolutePath} (h : path ∈ selfAndAncestors (key.parent root)) :
    path.segments.length ≤ root.segments.length + 1 := by
  obtain ⟨depth, hdepth, rfl⟩ := List.mem_map.mp h
  refine (List.length_take_le _ _).trans ?_
  have hlength : (key.parent root).segments.length = root.segments.length + 1 := by
    simp [parent]
  have hrange := List.mem_range.mp hdepth
  omega

theorem length_path : (key.path root).segments.length = root.segments.length + 2 := by
  simp [path]

theorem length_of_way {path : AbsolutePath} (h : path ∈ selfAndAncestors root) :
    path.segments.length ≤ root.segments.length := by
  obtain ⟨depth, hdepth, rfl⟩ := List.mem_map.mp h
  exact List.length_take_le' _ _

theorem parent_above : key.parent root ∈ selfAndAncestors (key.parent root) := by
  have hlength : (key.parent root).segments.length = root.segments.length + 1 := by
    simp [parent]
  refine List.mem_map.mpr ⟨root.segments.length, List.mem_range.mpr (by omega),
    AbsolutePath.ext ?_⟩
  exact List.take_of_length_le (by omega)

/-- What lies above a key lies above the root, or is the key's directory. -/
theorem way_or_parent {path : AbsolutePath} (h : path ∈ selfAndAncestors (key.parent root)) :
    path ∈ selfAndAncestors root ∨ path = key.parent root := by
  obtain ⟨depth, hdepth, rfl⟩ := List.mem_map.mp h
  have hlength : (key.parent root).segments.length = root.segments.length + 1 := by
    simp [parent]
  have hrange := List.mem_range.mp hdepth
  rw [hlength] at hrange
  by_cases hlast : depth = root.segments.length
  · right
    apply AbsolutePath.ext
    exact List.take_of_length_le (by omega)
  · left
    refine List.mem_map.mpr ⟨depth, List.mem_range.mpr (by omega), AbsolutePath.ext ?_⟩
    exact (List.take_append_of_le_length (by omega)).symm

end Key

/-! ### The blobs on a disk -/

/-- What the paths hold stands for these blobs: the keys hold them, and no file stands where a
directory is due. -/
structure Represents (root : AbsolutePath) (holds : AbsolutePath → Option (Option Bytes))
    (blobs : Blobs Key UInt8) : Prop where
  way : ∀ path ∈ selfAndAncestors root, (holds path).join = none
  parents : ∀ key : Key, (holds (key.parent root)).join = none
  blobs : ∀ key : Key, holds (key.path root) = (blobs key).map some

namespace Represents

variable {root : AbsolutePath} {holds : AbsolutePath → Option (Option Bytes)}
  {blobs : Blobs Key UInt8} {tree : Tree}

theorem empty (root : AbsolutePath) : Represents root (content ∅) fun _ ↦ none where
  way _ _ := rfl
  parents _ := rfl
  blobs _ := rfl

/-- The directory of a key can be made. -/
theorem makes (h : Represents root (content tree) blobs) (key : Key) :
    Makes .completes tree (key.path root).dirname := by
  refine ⟨rfl, fun hany ↦ ?_⟩
  rw [blocked, key.dirname_path] at hany
  obtain ⟨path, hpath, hfile⟩ := List.any_eq_true.mp hany
  have hnone : (content tree path).join = none := by
    rcases key.way_or_parent root hpath with hway | rfl
    · exact h.way path hway
    · exact h.parents key
  cases hnode : tree.lookup path with
  | none => rw [hnode] at hfile; cases hfile
  | some node =>
    rw [hnode] at hfile
    cases node with
    | directory => cases hfile
    | file bytes mtimeMs =>
      rw [content, hnode] at hnone
      cases hnone

/-- What is missing under a key is simply missing. -/
theorem absence (h : Represents root (content tree) blobs) (key : Key) :
    absence tree (key.path root) = .enoent :=
  if_neg (h.makes key).2

/-- The directories that are made for a key are not seen, all or some of them. -/
theorem prepared (h : Represents root (content tree) blobs) (key : Key) (fate : Fate) :
    Represents root (content (prepared fate tree (key.path root).dirname)) blobs where
  way path hpath := (join_content_prepared fate tree _ path).trans (h.way path hpath)
  parents other := (join_content_prepared fate tree _ _).trans (h.parents other)
  blobs other := by
    rw [← h.blobs other, key.dirname_path]
    apply content_of_lookup_eq
    rw [lookup_prepared, if_neg]
    intro hmade
    have hshort := key.length_of_above root (made_cases hmade).1
    rw [other.length_path] at hshort
    omega

variable (h : Represents root holds blobs)

include h

/-- A key holds something else. -/
theorem update (key : Key) (blob : Option Bytes) :
    Represents root (Function.update holds (key.path root) (blob.map some))
      (Function.update blobs key blob) where
  way path hpath := by
    have hne : path ≠ key.path root := by
      rintro rfl
      have hshort := Key.length_of_way root hpath
      rw [key.length_path] at hshort
      omega
    rw [Function.update_of_ne hne]
    exact h.way path hpath
  parents other := by
    have hne : other.parent root ≠ key.path root := by
      intro heq
      have hlength := congrArg (fun path ↦ path.segments.length) heq
      simp [Key.parent, Key.path] at hlength
    rw [Function.update_of_ne hne]
    exact h.parents other
  blobs other := by
    by_cases hother : other = key
    · subst hother
      rw [Function.update_self, Function.update_self]
    · rw [Function.update_of_ne ((Key.path_injective root).ne hother),
        Function.update_of_ne hother]
      exact h.blobs other

/-- Something happens outside the storage, and no file stands above it. -/
theorem elsewhere {path : AbsolutePath} (houtside : ¬ Inside root path)
    {node : Option (Option Bytes)} (hnode : path ∈ selfAndAncestors root → node.join = none) :
    Represents root (Function.update holds path node) blobs where
  way other hother := by
    by_cases hsame : other = path
    · subst hsame
      rw [Function.update_self]
      exact hnode hother
    · rw [Function.update_of_ne hsame]
      exact h.way other hother
  parents other := by
    have hne : other.parent root ≠ path := fun heq ↦ houtside (heq ▸ other.inside_parent root)
    rw [Function.update_of_ne hne]
    exact h.parents other
  blobs other := by
    have hne : other.path root ≠ path := fun heq ↦ houtside (heq ▸ other.inside_path root)
    rw [Function.update_of_ne hne]
    exact h.blobs other

end Represents

/-! ### Operations -/

/-- The operations of `Storage` on a key. A reader opens a stream and reads it to the end. -/
inductive Operation
  | write (write : Write)
  | read
  | has
  | size
  | delete

namespace Operation

def program (root : AbsolutePath) (key : String) : Operation → Fs (Reply UInt8)
  | .write writing => do
    let stored ← writing.program root key
    return .stored stored.size
  | .read => do
    let stream ← openStored root key
    let bytes ← openRead stream.path
    return .fetched bytes
  | .has => do
    let there ← existsStored root key
    return .found there
  | .size => do
    let size ← LocalStorage.size root key
    return .measured size
  | .delete => do
    LocalStorage.delete root key
    return .dropped

/-- What the caller asks of a store of blobs. -/
def request (key : Key) : Operation → Request Key UInt8 NodeError
  | .write writing => .put key writing.delivery.bytes writing.delivery.failure
  | .read => .fetch key
  | .has => .has key
  | .size => .measure key
  | .delete => .drop key

/-- A file that is adopted is there, outside the storage. -/
def Possible (root : AbsolutePath) (tree : Tree) : Operation → Prop
  | .write (.adopt localPath staged) =>
    content tree localPath = some (some staged) ∧ ¬ Inside root localPath
  | _ => True

instance (root : AbsolutePath) (tree : Tree) : DecidablePred (Possible root tree)
  | .write (.adopt _ _) => inferInstanceAs (Decidable (_ ∧ _))
  | .write (.save _) | .write (.saveFrom _ _) | .read | .has | .size | .delete => .isTrue trivial

end Operation

/-- One of the first calls goes wrong. -/
def Troubled (fate : ℕ → Fate) (calls : ℕ) : Prop := ∃ call < calls, fate call ≠ .completes

/-- An operation has been served as a store of blobs serves it. -/
def Served (root : AbsolutePath) (blobs : Blobs Key UInt8) (key : Key) (operation : Operation)
    (fate : ℕ → Fate) (ended : Program.Ended NodeError (Reply UInt8) Tree) : Prop :=
  ∃ after, Step (.system .enoent) blobs
      (.asked (operation.request key) ended.outcome (Troubled fate ended.calls)) after ∧
    Represents root (content ended.state) after

section Operations

variable {root : AbsolutePath} {tree : Tree} {blobs : Blobs Key UInt8} {key : Key}
  {fate : ℕ → Fate}

/-- A call that does not complete is trouble. -/
theorem troubled_of_fails {call calls : ℕ} {code : ErrorCode} {written : Option ℕ}
    (h : fate call = .fails code written) (hmade : call < calls) : Troubled fate calls :=
  ⟨call, hmade, by rw [h]; simp⟩

/-- An operation that has rejected in trouble and has changed nothing. -/
theorem served_of_refused {operation : Operation} {fault : NodeError} {calls : ℕ}
    (hask : operation ≠ .has) (htroubled : Troubled fate calls)
    (h : Represents root (content tree) blobs) :
    Served root blobs key operation fate ⟨.error fault, calls, tree⟩ := by
  refine ⟨blobs, .failed (.refused (fun other hother ↦ hask ?_) fault) htroubled, h⟩
  cases operation with
  | has => rfl
  | write | read | size | delete => cases hother

/-- An operation that has gone as it should. -/
theorem served_of_serve {operation : Operation} {answer : Except NodeError (Reply UInt8)}
    {after : Blobs Key UInt8} {calls : ℕ}
    (hserve : serve (.system .enoent) blobs (operation.request key) = (answer, after))
    (h : Represents root (content tree) after) :
    Served root blobs key operation fate ⟨answer, calls, tree⟩ :=
  ⟨after, step_of_serve hserve _, h⟩

theorem Represents.lookup (h : Represents root (content tree) blobs) (key : Key) :
    (blobs key = none ∧ tree.lookup (key.path root) = none) ∨
      ∃ bytes mtimeMs, blobs key = some bytes ∧
        tree.lookup (key.path root) = some (.file bytes mtimeMs) := by
  have hheld := h.blobs key
  cases hblob : blobs key with
  | none =>
    rw [hblob] at hheld
    exact Or.inl ⟨rfl, Option.map_eq_none_iff.mp hheld⟩
  | some bytes =>
    rw [hblob] at hheld
    obtain ⟨mtimeMs, hnode⟩ := content_eq_file_iff.mp hheld
    exact Or.inr ⟨bytes, mtimeMs, rfl, hnode⟩

variable (hroot : root.segments ≠ []) (h : Represents root (content tree) blobs)
  (clock : ℕ → ℚ)

include hroot h

theorem served_read :
    Served root blobs key .read fate
      (Program.run (world fate clock) (Operation.read.program root key.text) 0 tree) := by
  rw [Operation.program, openStored_of_ok (key.pathFor_text hroot)]
  simp only [Program.run_bind, stat, openRead, Program.run_perform, world_apply]
  cases hstat : fate 0 with
  | fails code written => exact served_of_refused (by simp) (troubled_of_fails hstat Nat.one_pos) h
  | completes =>
    rcases h.lookup key with ⟨hblob, hnode⟩ | ⟨bytes, mtimeMs, hblob, hnode⟩
    · simp only [answer, hnode, h.absence key]
      exact served_of_serve (by simp [serve, Operation.request, hblob]) h
    · simp only [answer_stat_of_some hnode, Program.run_pure, Program.Ended.andThen_ok,
        Nat.zero_add]
      cases hopen : fate 1 with
      | fails code written =>
        exact served_of_refused (by simp) (troubled_of_fails hopen Nat.one_lt_two) h
      | completes =>
        simp only [answer, hnode]
        exact served_of_serve (by simp [serve, Operation.request, hblob]) h

theorem served_size :
    Served root blobs key .size fate
      (Program.run (world fate clock) (Operation.size.program root key.text) 0 tree) := by
  rw [Operation.program, size_of_ok (key.pathFor_text hroot)]
  simp only [Program.run_bind, stat, Program.run_perform, world_apply]
  cases hstat : fate 0 with
  | fails code written => exact served_of_refused (by simp) (troubled_of_fails hstat Nat.one_pos) h
  | completes =>
    rcases h.lookup key with ⟨hblob, hnode⟩ | ⟨bytes, mtimeMs, hblob, hnode⟩
    · simp only [answer, hnode, h.absence key]
      exact served_of_serve (by simp [serve, Operation.request, hblob]) h
    · rw [answer_stat_of_some hnode]
      exact served_of_serve (by simp [serve, Operation.request, hblob, Node.stats]) h

/-- `exists` never rejects: it says no in trouble. -/
theorem served_has :
    Served root blobs key .has fate
      (Program.run (world fate clock) (Operation.has.program root key.text) 0 tree) := by
  rw [Operation.program, existsStored_of_ok (key.pathFor_text hroot)]
  simp only [Program.run_bind, Program.run_handle, stat, Program.run_perform, world_apply]
  cases hstat : fate 0 with
  | fails code written =>
    exact ⟨blobs, .failed (.denied key) (troubled_of_fails hstat Nat.one_pos), h⟩
  | completes =>
    rcases h.lookup key with ⟨hblob, hnode⟩ | ⟨bytes, mtimeMs, hblob, hnode⟩
    · simp only [answer, hnode, h.absence key]
      exact served_of_serve (by simp [serve, Operation.request, hblob]) h
    · rw [answer_stat_of_some hnode]
      exact served_of_serve (by simp [serve, Operation.request, hblob]) h

theorem served_delete :
    Served root blobs key .delete fate
      (Program.run (world fate clock) (Operation.delete.program root key.text) 0 tree) := by
  rw [Operation.program, delete, key.pathFor_text hroot, Program.ofExcept_ok_bind]
  simp only [Program.run_bind, rm, Program.run_perform, world_apply]
  cases hremove : fate 0 with
  | fails code written => exact served_of_refused (by simp) (troubled_of_fails hremove Nat.one_pos) h
  | completes =>
    rcases h.lookup key with ⟨hblob, hnode⟩ | ⟨bytes, mtimeMs, -, hnode⟩
    · rw [answer_remove_of_none hnode, if_neg (h.makes key).2]
      refine served_of_serve rfl ?_
      have hsame : Function.update blobs key none = blobs := by
        rw [← hblob, Function.update_eq_self]
      exact hsame.symm ▸ h
    · rw [answer_remove_of_file hnode]
      refine served_of_serve rfl ?_
      rw [content_erase]
      exact h.update key none

end Operations

/-! ### Writes -/

section Writes

variable {root target : AbsolutePath} {tree : Tree} {blobs : Blobs Key UInt8} {key : Key}
  {fate : ℕ → Fate} {writing : Write}

/-- What a write that has opened its target leaves there is a part of what was delivered. -/
theorem exists_take_of_left {bytes : Bytes} (h : writing.point fate tree target = .left bytes) :
    ∃ count, bytes = writing.delivery.bytes.take count := by
  have hsave : ∀ delivery : Delivery, savePoint fate tree delivery target = .left bytes →
      ∃ count, bytes = delivery.bytes.take count := by
    intro delivery hpoint
    rw [savePoint] at hpoint
    split_ifs at hpoint
    rw [← Point.left.inj hpoint]
    cases fate 1 with
    | completes => exact ⟨_, (List.take_length).symm⟩
    | fails code written => exact ⟨_, rfl⟩
  cases writing with
  | save source => exact hsave source h
  | saveFrom source stages => exact hsave _ h
  | adopt localPath staged =>
    simp only [Write.point, adoptPoint] at h
    split_ifs at h
    · rw [← Point.left.inj h]
      cases fate 2 with
      | completes => exact ⟨_, (List.take_length).symm⟩
      | fails code written => exact ⟨_, rfl⟩
    · rw [← Point.left.inj h]
      exact ⟨_, (List.take_length).symm⟩

/-- The directory of a key is there when it has been made, and no directory stands at the key. -/
theorem opens_of_made (h : Represents root (content tree) blobs) (key : Key) :
    Opens .completes (prepared .completes tree (key.path root).dirname) (key.path root) := by
  refine ⟨by simp, ?_, ?_⟩
  · rcases (h.prepared key .completes).lookup key with ⟨-, hnode⟩ | ⟨bytes, mtimeMs, -, hnode⟩ <;>
      simp [hnode]
  · rw [lookup_prepared, made_of_makes (h.makes key), key.dirname_path,
      if_pos (key.parent_above root)]

/-- Nothing goes wrong below the storage. -/
abbrev quiet : ℕ → Fate := fun _ ↦ .completes

/-- Then a write gets as far as its source does. -/
theorem point_of_quiet (h : Represents root (content tree) blobs) :
    writing.point quiet tree (key.path root) =
      if writing.delivery.failure = none then .stored else .left writing.delivery.bytes := by
  have hmakes := h.makes key
  have hopens := opens_of_made h key
  have hsave : ∀ delivery : Delivery, savePoint quiet tree delivery (key.path root) =
      if delivery.failure = none then .stored else .left delivery.bytes := by
    intro delivery
    simp only [savePoint, if_neg (not_not.mpr hmakes), if_neg (not_not.mpr hopens), Finishes,
      leaves, true_and, and_true]
  cases writing with
  | save source => exact hsave source
  | saveFrom source stages => exact hsave _
  | adopt localPath staged =>
    have hmoves : Moves .completes (prepared .completes tree (key.path root).dirname)
        (key.path root) := ⟨rfl, hopens.2⟩
    simp only [Write.point, adoptPoint, if_neg (not_not.mpr hmakes), if_pos hmoves, if_true,
      Write.delivery]

/-- And it is rejected with the fault of its source. -/
theorem outcome_of_quiet (hroot : root.segments ≠ []) (h : Represents root (content tree) blobs)
    {failure : NodeError} (hfailure : writing.delivery.failure = some failure) (clock : ℕ → ℚ) :
    (ended root key.text writing quiet clock tree).outcome = .error failure := by
  have hsave : ∀ delivery : Delivery, delivery.failure = some failure →
      (Program.run (world quiet clock) (saveTo key.text delivery (key.path root)) 0 tree).outcome =
        .error failure := by
    intro delivery hdelivery
    rw [saveTo, Program.run_bind, mkdir, Program.run_perform, world_apply,
      answer_mkdir_of_makes (h.makes key), Program.Ended.andThen_ok, Program.run_bind, writeStream,
      Program.run_perform, world_apply]
    have hwritten := writeTo_of_failure (opens_of_made h key) hdelivery (clock (0 + 1))
    simp only [answer, hwritten, Program.Ended.andThen_error]
  cases writing with
  | save source =>
    rw [ended, Write.program, LocalStorage.save, key.pathFor_text hroot]
    exact hsave source hfailure
  | saveFrom source stages =>
    rw [ended, Write.program, LocalStorage.saveFrom, key.pathFor_text hroot]
    exact hsave _ hfailure
  | adopt localPath staged => cases hfailure

/-- An operation that meets no trouble runs as it does where nothing goes wrong. -/
theorem ended_of_quiet {clock : ℕ → ℚ} {name : String}
    (h : ¬ Troubled fate (ended root name writing fate clock tree).calls) :
    ended root name writing fate clock tree = ended root name writing quiet clock tree := by
  refine Foundation.Interruption.run_congr fun number _ hmade ↦ ?_
  funext request state
  have hfate : fate number = .completes := by_contra fun hfails ↦ h ⟨number, hmade, hfails⟩
  show answer (fate number) (clock number) request state = answer .completes _ request state
  rw [hfate]

/-- The blobs after a write that has ended at a point. -/
def blobsAt (blobs : Blobs Key UInt8) (key : Key) (output : Bytes) : Point → Blobs Key UInt8
  | .refused | .unopened => blobs
  | .left bytes => Function.update blobs key (some bytes)
  | .moved | .gone | .stored => Function.update blobs key (some output)

theorem represents_leaves (h : Represents root (content tree) blobs) (fate : Fate)
    {source : Option AbsolutePath}
    (houtside : ∀ localPath ∈ source, ¬ Inside root localPath) (output : Bytes) (point : Point) :
    Represents root (point.leaves (prepared fate tree (key.path root).dirname) (key.path root)
      source output) (blobsAt blobs key output point) := by
  have hmade := h.prepared key fate
  have hvacate : ∀ {holds : AbsolutePath → Option (Option Bytes)} {held : Blobs Key UInt8},
      Represents root holds held → Represents root (vacate source holds) held := by
    intro holds held hholds
    cases source with
    | none => exact hholds
    | some localPath => exact hholds.elsewhere (houtside localPath rfl) fun _ ↦ rfl
  cases point with
  | refused => exact hmade
  | unopened => exact hmade
  | left bytes => exact hmade.update key (some bytes)
  | moved => exact (hvacate hmade).update key (some output)
  | stored => exact (hvacate hmade).update key (some output)
  | gone => exact hvacate (hmade.update key (some output))

/-- A write that goes through has a source that does not fail. -/
theorem failure_of_stored (h : writing.point fate tree target = .stored) :
    writing.delivery.failure = none := by
  have hsave : ∀ delivery : Delivery, savePoint fate tree delivery target = .stored →
      delivery.failure = none := by
    intro delivery hpoint
    rw [savePoint] at hpoint
    split_ifs at hpoint with hmakes hopens hfinishes
    exact hfinishes.1.2
  cases writing with
  | save source => exact hsave source h
  | saveFrom source stages => exact hsave _ h
  | adopt localPath staged => rfl

/-- A write that does not go through has left the key alone or has left a part there. -/
theorem fails_of_point (hpoint : writing.point fate tree target ≠ .stored) (fault : NodeError) :
    Fails blobs ((Operation.write writing).request key) (.error fault)
      (blobsAt blobs key writing.delivery.bytes (writing.point fate tree target)) := by
  have hwhole : Fails blobs ((Operation.write writing).request key) (.error fault)
      (Function.update blobs key (some writing.delivery.bytes)) := by
    have hbroken : Fails blobs (.put key writing.delivery.bytes writing.delivery.failure)
        (.error fault) (Function.update blobs key
          (some (writing.delivery.bytes.take writing.delivery.bytes.length))) :=
      .broken key writing.delivery.bytes _ fault _
    rwa [List.take_length] at hbroken
  cases hended : writing.point fate tree target with
  | refused => exact .refused (by simp [Operation.request]) fault
  | unopened => exact .refused (by simp [Operation.request]) fault
  | left bytes =>
    obtain ⟨count, rfl⟩ := exists_take_of_left hended
    exact .broken key writing.delivery.bytes writing.delivery.failure fault count
  | moved => exact hwhole
  | gone => exact hwhole
  | stored => exact absurd hended hpoint

/-- What a write that may be made needs of its source. -/
theorem source_of_possible (hpossible : (Operation.write writing).Possible root tree) :
    writing.Supplied tree ∧ ∀ localPath ∈ writing.source, ¬ Inside root localPath := by
  have hnone : ∀ {property : AbsolutePath → Prop}, ∀ localPath ∈ (none : Option AbsolutePath),
      property localPath := fun localPath hlocal ↦ by cases hlocal
  cases writing with
  | save source => exact ⟨hnone, hnone⟩
  | saveFrom source stages => exact ⟨hnone, hnone⟩
  | adopt localPath staged =>
    refine ⟨fun path hpath ↦ ?_, fun path hpath ↦ ?_⟩
    · exact Option.some.inj hpath ▸ hpossible.1
    · exact Option.some.inj hpath ▸ hpossible.2

/-- The answer of a write is the size that it has stored. -/
theorem run_write (root : AbsolutePath) (key : String) (writing : Write) (fate : ℕ → Fate)
    (clock : ℕ → ℚ) (tree : Tree) :
    Program.run (world fate clock) ((Operation.write writing).program root key) 0 tree =
      ⟨(ended root key writing fate clock tree).outcome.map fun stored ↦ .stored stored.size,
        (ended root key writing fate clock tree).calls,
        (ended root key writing fate clock tree).state⟩ := by
  rw [Operation.program, Program.run_bind]
  show (ended root key writing fate clock tree).andThen _ = _
  obtain ⟨outcome, calls, state⟩ := ended root key writing fate clock tree
  cases outcome <;> rfl

/-- A write is served: it goes through, or fails with its source, or gets half way in trouble. -/
theorem served_write (hroot : root.segments ≠ []) (h : Represents root (content tree) blobs)
    (clock : ℕ → ℚ) (hpossible : (Operation.write writing).Possible root tree) :
    Served root blobs key (.write writing) fate
      (Program.run (world fate clock) ((Operation.write writing).program root key.text) 0 tree) := by
  obtain ⟨hsupplied, houtside⟩ := source_of_possible hpossible
  have hends := fun fate ↦ @ended_endsAt root _ key.text writing fate clock tree
    (key.pathFor_text hroot) hsupplied
  have hafter : ∀ fate, Represents root
      (content (ended root key.text writing fate clock tree).state)
      (blobsAt blobs key writing.delivery.bytes (writing.point fate tree (key.path root))) := by
    intro fate
    rw [(hends fate).holds]
    exact represents_leaves h _ houtside _ _
  rw [run_write]
  by_cases hpoint : writing.point fate tree (key.path root) = .stored
  · refine ⟨_, ?_, hafter fate⟩
    have houtcome := (hends fate).outcome
    rw [hpoint] at houtcome ⊢
    rw [houtcome]
    refine step_of_serve ?_ _
    rw [Operation.request, failure_of_stored hpoint]
    rfl
  · obtain ⟨fault, houtcome⟩ := (hends fate).rejects hpoint
    by_cases htroubled : Troubled fate (ended root key.text writing fate clock tree).calls
    · refine ⟨_, ?_, hafter fate⟩
      rw [houtcome]
      exact .failed (fails_of_point hpoint fault) htroubled
    · have hquiet := ended_of_quiet htroubled
      rw [hquiet] at houtcome ⊢
      have hreached := @point_of_quiet root tree blobs key writing h
      cases hfailure : writing.delivery.failure with
      | none =>
        rw [hfailure, if_pos rfl] at hreached
        have hstored := (hends quiet).outcome
        rw [hreached, houtcome] at hstored
        cases hstored
      | some failure =>
        rw [hfailure, if_neg (by simp)] at hreached
        refine ⟨_, ?_, hafter quiet⟩
        rw [hreached, outcome_of_quiet hroot h hfailure clock]
        refine step_of_serve ?_ _
        rw [Operation.request, hfailure]
        rfl

end Writes

/-- Every operation is served. -/
theorem served {root : AbsolutePath} (hroot : root.segments ≠ []) {tree : Tree}
    {blobs : Blobs Key UInt8} (h : Represents root (content tree) blobs) (key : Key)
    {operation : Operation} (hpossible : operation.Possible root tree) (fate : ℕ → Fate)
    (clock : ℕ → ℚ) :
    Served root blobs key operation fate
      (Program.run (world fate clock) (operation.program root key.text) 0 tree) := by
  cases operation with
  | write writing => exact served_write hroot h clock hpossible
  | read => exact served_read hroot h clock
  | has => exact served_has hroot h clock
  | size => exact served_size hroot h clock
  | delete => exact served_delete hroot h clock

/-! ### Runs -/

/-- A disk, and what has happened to the storage on it. -/
structure State where
  tree : Tree
  events : List (Event Key UInt8 NodeError) := []

inductive Action
  /-- An operation, with what becomes of its calls. -/
  | ask (key : Key) (operation : Operation) (fate : ℕ → Fate) (clock : ℕ → ℚ)
  /-- Files are removed, by a sweep or by anyone else. -/
  | remove (paths : List AbsolutePath)
  /-- A file is put outside the storage. -/
  | put (path : AbsolutePath) (bytes : Bytes) (mtimeMs : ℚ)

/-- The run of an operation. -/
def asked (root : AbsolutePath) (key : Key) (operation : Operation) (fate : ℕ → Fate)
    (clock : ℕ → ℚ) (tree : Tree) : Program.Ended NodeError (Reply UInt8) Tree :=
  Program.run (world fate clock) (operation.program root key.text) 0 tree

def State.step (root : AbsolutePath) (state : State) : Action → Option State
  | .ask key operation fate clock =>
    if operation.Possible root state.tree then
      let ended := asked root key operation fate clock state.tree
      some {
        tree := ended.state
        events := state.events ++
          [.asked (operation.request key) ended.outcome (Troubled fate ended.calls)] }
    else none
  | .remove paths => some {
      tree := removeFiles paths state.tree
      events := state.events ++ [.lost fun key ↦ decide (key.path root ∈ paths)] }
  | .put path bytes mtimeMs =>
    if Inside root path ∨ path ∈ selfAndAncestors root then none
    else some { state with tree := state.tree.insert path (.file bytes mtimeMs) }

/-- A storage below a root, on a disk on which there is nothing. -/
def storage (root : AbsolutePath) : System State Action where
  start := { tree := ∅ }
  step := State.step root

/-- The action may change what a key holds. -/
def Action.Touches (root : AbsolutePath) (key : Key) : Action → Prop
  | .ask other operation _ _ => key ∈ (operation.request other).target
  | .remove paths => key.path root ∈ paths
  | .put _ _ _ => False

section Steps

variable {root : AbsolutePath} {tree : Tree} {blobs : Blobs Key UInt8}

/-- A path is empty afterwards. -/
theorem Represents.erase {holds : AbsolutePath → Option (Option Bytes)}
    (h : Represents root holds blobs) (path : AbsolutePath) :
    Represents root (Function.update holds path none)
      fun key ↦ if key.path root = path then none else blobs key where
  way other hother := by
    by_cases hsame : other = path
    · rw [hsame, Function.update_self]
      rfl
    · rw [Function.update_of_ne hsame]
      exact h.way other hother
  parents key := by
    by_cases hsame : key.parent root = path
    · rw [hsame, Function.update_self]
      rfl
    · rw [Function.update_of_ne hsame]
      exact h.parents key
  blobs key := by
    by_cases hsame : key.path root = path
    · rw [hsame, Function.update_self, if_pos rfl]
      rfl
    · rw [Function.update_of_ne hsame, if_neg hsame]
      exact h.blobs key

theorem Represents.removeFile (h : Represents root (content tree) blobs) (path : AbsolutePath) :
    Represents root (content (removeFile tree path))
      fun key ↦ if key.path root = path then none else blobs key := by
  rw [Foundation.FileTree.removeFile]
  split
  · rw [content_erase]
    exact h.erase path
  · rename_i hnode
    have hsame : (fun key : Key ↦ if key.path root = path then none else blobs key) = blobs := by
      funext key
      by_cases hpath : key.path root = path
      · rw [if_pos hpath]
        rcases h.lookup key with ⟨hblob, -⟩ | ⟨bytes, mtimeMs, -, hfile⟩
        · exact hblob.symm
        · exact absurd (hpath ▸ hfile) (hnode bytes mtimeMs)
      · rw [if_neg hpath]
    rw [hsame]
    exact h

/-- What is left when files were removed. -/
theorem Represents.removeFiles (h : Represents root (content tree) blobs)
    (paths : List AbsolutePath) :
    Represents root (content (removeFiles paths tree))
      fun key ↦ if decide (key.path root ∈ paths) then none else blobs key := by
  induction paths generalizing tree blobs with
  | nil => simpa [Foundation.FileTree.removeFiles] using h
  | cons path rest ih =>
    have hrest := ih (h.removeFile path)
    have hsame : (fun key : Key ↦
          if decide (key.path root ∈ path :: rest) then none else blobs key) =
        fun key ↦ if decide (key.path root ∈ rest) then none
          else if key.path root = path then none else blobs key := by
      funext key
      by_cases hfirst : key.path root = path <;> by_cases hlater : key.path root ∈ rest <;>
        simp [hfirst, hlater]
    rw [hsame]
    exact hrest

/-- A step of the storage is a step of a store of blobs, or none. -/
theorem step_refines (hroot : root.segments ≠ []) {before after : State} {action : Action}
    (h : Represents root (content before.tree) blobs)
    (hstep : before.step root action = some after) :
    ∃ events held, after.events = before.events ++ events ∧
      Runs (.system .enoent) blobs events held ∧ Represents root (content after.tree) held ∧
      ∀ key, ¬ action.Touches root key → ∀ event ∈ events, ¬ event.Touches key := by
  cases action with
  | ask key operation fate clock =>
    obtain ⟨hpossible, hafter⟩ := Option.ite_none_right_eq_some.mp hstep
    obtain rfl := Option.some.inj hafter
    obtain ⟨held, hserved, hheld⟩ := served hroot h key hpossible fate clock
    refine ⟨_, held, rfl, .cons hserved (.done held), hheld, fun other huntouched ↦ ?_⟩
    exact List.forall_mem_singleton.mpr huntouched
  | remove paths =>
    obtain rfl := Option.some.inj hstep
    refine ⟨_, _, rfl, .cons (.lost _) (.done _), h.removeFiles paths, fun other huntouched ↦ ?_⟩
    refine List.forall_mem_singleton.mpr fun hgone ↦ huntouched ?_
    have hmem : other.path root ∈ paths := of_decide_eq_true hgone
    exact hmem
  | put path bytes mtimeMs =>
    obtain ⟨houtside, hafter⟩ := Option.ite_none_left_eq_some.mp hstep
    obtain rfl := Option.some.inj hafter
    rw [not_or] at houtside
    refine ⟨[], blobs, (List.append_nil _).symm, .done blobs, ?_, fun _ _ _ h ↦ by cases h⟩
    show Represents root (content (before.tree.insert path _)) blobs
    rw [content_insert]
    exact h.elsewhere houtside.1 fun hway ↦ absurd hway houtside.2

/-- So are many. -/
theorem steps_refine (hroot : root.segments ≠ []) {actions : List Action} :
    ∀ {before after : State} {blobs : Blobs Key UInt8},
      Represents root (content before.tree) blobs →
      actions.foldlM (State.step root) before = some after →
      ∃ events held, after.events = before.events ++ events ∧
        Runs (.system .enoent) blobs events held ∧ Represents root (content after.tree) held ∧
        ∀ key, (∀ action ∈ actions, ¬ action.Touches root key) →
          ∀ event ∈ events, ¬ event.Touches key := by
  induction actions with
  | nil =>
    intro before after blobs h hsteps
    obtain rfl := Option.some.inj hsteps
    exact ⟨[], blobs, (List.append_nil _).symm, .done blobs, h, fun _ _ _ h ↦ by cases h⟩
  | cons action rest ih =>
    intro before after blobs h hsteps
    rw [List.foldlM_cons] at hsteps
    obtain ⟨between, hfirst, hrest⟩ := Option.bind_eq_some_iff.mp hsteps
    obtain ⟨early, middle, hearly, hrunEarly, hmiddle, huntouchedEarly⟩ :=
      step_refines hroot h hfirst
    obtain ⟨late, held, hlate, hrunLate, hheld, huntouchedLate⟩ := ih hmiddle hrest
    refine ⟨early ++ late, held, ?_, Foundation.BlobStore.runs_append_iff.mpr
      ⟨middle, hrunEarly, hrunLate⟩, hheld, fun key huntouched event hevent ↦ ?_⟩
    · rw [hlate, hearly, List.append_assoc]
    · rcases List.mem_append.mp hevent with hevent | hevent
      · exact huntouchedEarly key (huntouched action List.mem_cons_self) event hevent
      · exact huntouchedLate key (fun other hother ↦
          huntouched other (List.mem_cons_of_mem action hother)) event hevent

end Steps

/-- In every run, whatever fails and whatever else is on the disk: the storage answers as a store of
blobs does, and its files are the blobs of that store. -/
theorem localStorage_refines {root : AbsolutePath} (hroot : root.segments ≠ [])
    {actions : List Action} {state : State} (hrun : (storage root).run actions = some state) :
    ∃ blobs, Runs (.system .enoent) (fun _ ↦ none) state.events blobs ∧
      Represents root (content state.tree) blobs := by
  obtain ⟨events, blobs, hevents, hruns, hblobs, -⟩ :=
    steps_refine hroot (Represents.empty root) hrun
  rw [show state.events = events from hevents]
  exact ⟨blobs, hruns, hblobs⟩

/-- A write that was answered: whatever happens to other keys afterwards, every reader of the key
gets what was delivered, or is refused because a call of its own has failed. -/
theorem stored_is_read {root : AbsolutePath} (hroot : root.segments ≠ []) {past later : List Action}
    {before after : State} (hpast : (storage root).run past = some before) {key : Key}
    {writing : Write} {fate : ℕ → Fate} {clock : ℕ → ℚ} {reply : Reply UInt8}
    (hwrite : (asked root key (.write writing) fate clock before.tree).outcome = .ok reply)
    (hrun : (storage root).run (past ++ .ask key (.write writing) fate clock :: later) = some after)
    (hlater : ∀ action ∈ later, ¬ action.Touches root key) (fates : ℕ → Fate) (clocks : ℕ → ℚ) :
    reply = .stored writing.delivery.bytes.length ∧
      ((asked root key .read fates clocks after.tree).outcome =
          .ok (.fetched writing.delivery.bytes) ∨
        Troubled fates (asked root key .read fates clocks after.tree).calls ∧
          ∃ fault, (asked root key .read fates clocks after.tree).outcome = .error fault) := by
  rw [System.run, List.foldlM_append] at hrun
  obtain ⟨middle, hmiddle, hsteps⟩ := Option.bind_eq_some_iff.mp hrun
  obtain rfl := Option.some.inj (hpast.symm.trans hmiddle)
  rw [List.foldlM_cons] at hsteps
  obtain ⟨written, hstep, hrest⟩ := Option.bind_eq_some_iff.mp hsteps
  obtain ⟨hsupplied, hwritten⟩ := Option.ite_none_right_eq_some.mp hstep
  obtain rfl := Option.some.inj hwritten
  obtain ⟨-, blobs, -, -, hblobs, -⟩ := steps_refine hroot (Represents.empty root) hpast
  -- the write puts the blob there
  obtain ⟨held, hserved, hheld⟩ := served hroot hblobs key hsupplied fate clock
  rw [show (Program.run (world fate clock) _ 0 before.tree).outcome = _ from hwrite] at hserved
  obtain ⟨hreply, hstored⟩ := hserved.stored
  -- and nothing that follows takes it away
  obtain ⟨events, kept, -, hruns, hkept, huntouched⟩ := steps_refine hroot hheld hrest
  have hlast : kept key = some writing.delivery.bytes :=
    (hruns.untouched (huntouched key hlater)).trans hstored
  have hpossible : Operation.read.Possible root after.tree := trivial
  obtain ⟨_, hread, -⟩ := served hroot hkept key hpossible fates clocks
  exact ⟨hreply, hread.fetched hlast⟩

/-! ### A run -/

/-- The key `outputs/a.csv`, and another one. -/
def outputKey : Key := ⟨"outputs", "a.csv", by decide, by decide⟩

def otherKey : Key := ⟨"outputs", "b.csv", by decide, by decide⟩

/-- A file is staged. -/
def stagingRun : List Action := [.put stagedPath [1, 2] 0]

/-- It is adopted, across file systems. -/
def adoptStaged : Action :=
  .ask outputKey (.write (.adopt stagedPath [1, 2])) acrossFileSystems fun _ ↦ 0

/-- A source that fails leaves a part under the other key, and a sweep takes it away. -/
def laterRun : List Action :=
  [.ask otherKey (.write (.save { bytes := [3], failure := some (.thrown "bad row") }))
      quiet fun _ ↦ 0,
    .remove [otherKey.path dataStorage]]

theorem localStorage_refines_staged :
    ∃ state blobs, (storage dataStorage).run (stagingRun ++ adoptStaged :: laterRun) = some state ∧
      Runs (.system .enoent) (fun _ ↦ none) state.events blobs ∧
      Represents dataStorage (content state.tree) blobs := by
  have hrun : ((storage dataStorage).run
      (stagingRun ++ adoptStaged :: laterRun)).isSome = true := by decide +kernel
  obtain ⟨state, hstate⟩ := Option.isSome_iff_exists.mp hrun
  obtain ⟨blobs, hruns, hblobs⟩ := localStorage_refines (by decide) hstate
  exact ⟨state, blobs, hstate, hruns, hblobs⟩

theorem stored_is_read_staged :
    ∃ state, (storage dataStorage).run (stagingRun ++ adoptStaged :: laterRun) = some state ∧
      (asked dataStorage outputKey .read quiet (fun _ ↦ 0) state.tree).outcome =
        .ok (.fetched [1, 2]) := by
  have hrun : ((storage dataStorage).run
      (stagingRun ++ adoptStaged :: laterRun)).isSome = true := by decide +kernel
  obtain ⟨state, hstate⟩ := Option.isSome_iff_exists.mp hrun
  have hwrite : (asked dataStorage outputKey (.write (.adopt stagedPath [1, 2])) acrossFileSystems
      (fun _ ↦ 0) ((∅ : Tree).insert stagedPath (.file [1, 2] 0))).outcome = .ok (.stored 2) := by
    rfl
  have hlater : ∀ action ∈ laterRun, ¬ action.Touches dataStorage outputKey := by
    intro action haction
    rcases List.mem_pair.mp haction with rfl | rfl
    · have hother : outputKey ∉ some otherKey := by decide
      exact hother
    · have hother : outputKey.path dataStorage ∉ [otherKey.path dataStorage] := by decide
      exact hother
  obtain ⟨-, hread | ⟨⟨call, -, hfails⟩, -⟩⟩ :=
    stored_is_read (by decide) rfl hwrite hstate hlater quiet fun _ ↦ 0
  · exact ⟨state, hstate, hread⟩
  · exact absurd rfl hfails

end FileForge.Storage.Refinement
