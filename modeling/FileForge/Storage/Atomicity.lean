import FileForge.Foundation.FileWrites
import FileForge.Storage.LocalStorage

/-!
# What a failing write leaves in storage

The three ways in which `LocalStorage` writes a key, on a machine that may fail any of their calls
and on which no other process touches the tree. Storage is seen through `open`, read to the end,
and `exists` (`opened`, `present`), and as a map from keys to bytes (`bytesAt`).

How far a write gets is a `Point`, computed from what becomes of each call and from the tree
(`savePoint`, `adoptPoint`); `run_saveTo` and `run_adopt` say what every point answers and leaves.
`allOrNothing_iff` settles when a write is all or nothing: when it goes through, when it is stopped
before its target is opened or its source is moved, or when what it leaves happens to be what was
there before.
-/

set_option autoImplicit false
set_option relaxedAutoImplicit false

namespace FileForge.Storage.Atomicity

open Foundation.Interaction Foundation.PosixPath Foundation.FileTree Foundation.FileWrites
open LocalStorage

/-! ### What a reader sees -/

/-- `open` of a key, and its stream read to the end. -/
def opened (root : AbsolutePath) (tree : Tree) (key : String) : Except NodeError Bytes :=
  (Program.run ({} : Machine).world (do
    let stream ← openStored root key
    openRead stream.path) 0 tree).outcome

/-- `exists` of a key. -/
def present (root : AbsolutePath) (tree : Tree) (key : String) : Except NodeError Bool :=
  (Program.run ({} : Machine).world (existsStored root key) 0 tree).outcome

/-- Storage as a map from keys to bytes. -/
def bytesAt (root : AbsolutePath) (tree : Tree) (key : String) : Option Bytes :=
  (opened root tree key).toOption

/-- What `open` and its stream answer about a path that holds this. -/
def reading (absence : ErrorCode) : Option (Option Bytes) → Except NodeError Bytes
  | none => .error (.system absence)
  | some none => .error (.system .eisdir)
  | some (some bytes) => .ok bytes

theorem absence_ne_eisdir (tree : Tree) (path : AbsolutePath) : absence tree path ≠ .eisdir := by
  unfold absence
  split_ifs <;> simp

/-- An answer says what the path holds. -/
theorem content_eq_of_reading {before after : Tree} {path : AbsolutePath}
    (h : reading (absence after path) (content after path) =
      reading (absence before path) (content before path)) :
    content after path = content before path := by
  have hafter := absence_ne_eisdir after path
  have hbefore := absence_ne_eisdir before path
  generalize content after path = first at h ⊢
  generalize content before path = second at h ⊢
  rcases first with _ | _ | bytes <;> rcases second with _ | _ | other <;>
    simp_all [reading]

theorem toOption_reading (absence : ErrorCode) (held : Option (Option Bytes)) :
    (reading absence held).toOption = held.join := by
  rcases held with _ | _ | bytes <;> rfl

section Named

variable {root path : AbsolutePath} {key : String} (hpath : pathFor root key = .ok path)

include hpath

theorem opened_of_ok (tree : Tree) :
    opened root tree key = reading (absence tree path) (content tree path) := by
  rw [opened, openStored_of_ok hpath, Program.run_bind, Program.run_bind, stat,
    Program.run_perform, content]
  cases hnode : tree.lookup path with
  | none => simp [Machine.world, answer, hnode, reading]
  | some node =>
    cases node <;>
      simp [Machine.world, answer, hnode, reading, openRead, held]

theorem present_of_ok (tree : Tree) : present root tree key = .ok (content tree path).isSome := by
  rw [present, run_existsStored hpath, content, Option.isSome_map]

theorem bytesAt_of_ok (tree : Tree) : bytesAt root tree key = (content tree path).join := by
  rw [bytesAt, opened_of_ok hpath, toOption_reading]

end Named

section Refused

variable {root : AbsolutePath} {key : String} {fault : NodeError}
  (hrefused : pathFor root key = .error fault)

include hrefused

theorem opened_of_error (tree : Tree) : opened root tree key = .error fault := by
  rw [opened, openStored, hrefused]
  rfl

theorem present_of_error (tree : Tree) : present root tree key = .error fault := by
  rw [present, existsStored, hrefused]
  rfl

theorem bytesAt_of_error (tree : Tree) : bytesAt root tree key = none := by
  rw [bytesAt, opened_of_error hrefused]
  rfl

end Refused

/-- Every reader sees the same in two trees. -/
def SameAnswers (root : AbsolutePath) (before after : Tree) : Prop :=
  ∀ key, opened root after key = opened root before key ∧
    present root after key = present root before key

/-- A regular file on the way to a path is a path that holds bytes. -/
theorem blocked_iff (tree : Tree) (path : AbsolutePath) :
    blocked tree path = true ↔
      ∃ above ∈ selfAndAncestors path, (content tree above).join.isSome = true := by
  rw [blocked, List.any_eq_true]
  refine exists_congr fun above ↦ and_congr_right fun _ ↦ ?_
  rw [content]
  cases tree.lookup above with
  | none => simp
  | some node =>
    cases node with
    | file bytes mtimeMs => simp [held, Node.stats]
    | directory => simp [held, Node.stats]

/-- What is said of a path without a node depends on the files. -/
theorem absence_congr {before after : Tree} {path : AbsolutePath}
    (h : ∀ above ∈ selfAndAncestors path.dirname,
      (content after above).join = (content before above).join) :
    absence after path = absence before path := by
  have hblocked : blocked after path.dirname = true ↔ blocked before path.dirname = true := by
    rw [blocked_iff, blocked_iff]
    exact exists_congr fun above ↦ and_congr_right fun habove ↦ by rw [h above habove]
  rw [absence, absence]
  exact if_congr hblocked rfl rfl

/-- Readers that see the same see that the paths of the keys hold the same. -/
theorem content_of_sameAnswers {root : AbsolutePath} {before after : Tree}
    (h : SameAnswers root before after) {key : String} {path : AbsolutePath}
    (hpath : pathFor root key = .ok path) : content after path = content before path := by
  have hopened := (h key).1
  rw [opened_of_ok hpath, opened_of_ok hpath] at hopened
  exact content_eq_of_reading hopened

/-- Readers see what the paths of the keys hold. Assumes: no file comes or goes elsewhere. -/
theorem sameAnswers_iff {root : AbsolutePath} {before after : Tree}
    (helsewhere : ∀ path, (∀ key, pathFor root key ≠ .ok path) →
      (content after path).join = (content before path).join) :
    SameAnswers root before after ↔
      ∀ key path, pathFor root key = .ok path → content after path = content before path := by
  refine ⟨fun h key path hpath ↦ content_of_sameAnswers h hpath, fun h key ↦ ?_⟩
  have hfiles : ∀ path, (content after path).join = (content before path).join := by
    intro path
    by_cases hnamed : ∃ other, pathFor root other = .ok path
    · obtain ⟨other, hother⟩ := hnamed
      rw [h other path hother]
    · exact helsewhere path (not_exists.mp hnamed)
  cases hpath : pathFor root key with
  | error fault =>
    rw [opened_of_error hpath, opened_of_error hpath, present_of_error hpath,
      present_of_error hpath]
    exact ⟨rfl, rfl⟩
  | ok path =>
    rw [opened_of_ok hpath, opened_of_ok hpath, present_of_ok hpath, present_of_ok hpath,
      h key path hpath, absence_congr fun above _ ↦ hfiles above]
    exact ⟨rfl, rfl⟩

/-! ### Writes -/

/-- The three ways of writing a key. The bytes of the local file that `adopt` moves stand beside its
path. -/
inductive Write
  | save (source : Delivery)
  | saveFrom (source : Delivery) (stages : List Stage)
  | adopt (localPath : AbsolutePath) (staged : Bytes)

namespace Write

def program (root : AbsolutePath) (key : String) : Write → Fs StoredFile
  | .save source => LocalStorage.save root key source
  | .saveFrom source stages => LocalStorage.saveFrom root key source stages
  | .adopt localPath _ => LocalStorage.adopt root key localPath

/-- What the last stage delivers. -/
def delivery : Write → Delivery
  | .save source => source
  | .saveFrom source stages => stages.foldl (fun delivered stage ↦ stage delivered) source
  | .adopt _ staged => { bytes := staged, failure := none }

/-- The local file that the write takes away. -/
def source : Write → Option AbsolutePath
  | .adopt localPath _ => some localPath
  | _ => none

/-- The local file is there, with its bytes. -/
def Supplied (write : Write) (tree : Tree) : Prop :=
  ∀ localPath ∈ write.source, content tree localPath = some (some write.delivery.bytes)

end Write

/-- The run of a write on a machine with the given fates of its calls. -/
def ended (root : AbsolutePath) (key : String) (write : Write) (fate : ℕ → Fate) (clock : ℕ → ℚ)
    (tree : Tree) : Program.Ended NodeError StoredFile Tree :=
  Program.run ({ fate := fate, clock := clock } : Machine).world (write.program root key) 0 tree

/-- A write that rejects: every reader sees what was there before, and the local file can be
retried. -/
def Undone (root : AbsolutePath) (write : Write) (before after : Tree) : Prop :=
  SameAnswers root before after ∧ write.Supplied after

/-- A write that resolves: the key holds everything that was delivered, the size is its length, and
no key of another path, the local file's apart, has changed. -/
def Done (root : AbsolutePath) (key : String) (write : Write) (before : Tree) (stored : StoredFile)
    (after : Tree) : Prop :=
  stored = { key := key, size := write.delivery.bytes.length } ∧
    bytesAt root after key = some write.delivery.bytes ∧
    ∀ other, pathFor root other ≠ pathFor root key →
      (∀ localPath ∈ write.source, pathFor root other ≠ .ok localPath) →
      bytesAt root after other = bytesAt root before other

/-- A write is all or nothing. -/
def AllOrNothing (root : AbsolutePath) (key : String) (write : Write) (fate : ℕ → Fate)
    (clock : ℕ → ℚ) (tree : Tree) : Prop :=
  Program.Settles (Done root key write tree) (fun _ after ↦ Undone root write tree after)
    (ended root key write fate clock tree).outcome (ended root key write fate clock tree).state

/-! ### How far a write gets -/

/-- Where a write has ended. -/
inductive Point
  /-- The directory could not be made, or not all of those above it. -/
  | refused
  /-- The directory is there and the target has not been touched. -/
  | unopened
  /-- The target was opened and holds these bytes. -/
  | left (bytes : Bytes)
  /-- The local file was renamed to the target, and `stat` failed. -/
  | moved
  /-- The local file was copied to the target and removed, and `stat` failed. -/
  | gone
  | stored
  deriving DecidableEq

/-- What a path holds after a local file has been taken away. -/
def vacate (source : Option AbsolutePath) (holds : AbsolutePath → Option (Option Bytes)) :
    AbsolutePath → Option (Option Bytes) :=
  match source with
  | none => holds
  | some localPath => Function.update holds localPath none

/-- What the paths hold when a write has ended at a point, over what `mkdir` has left. -/
def Point.leaves (begun : Tree) (target : AbsolutePath) (source : Option AbsolutePath)
    (output : Bytes) : Point → AbsolutePath → Option (Option Bytes)
  | .refused | .unopened => content begun
  | .left bytes => Function.update (content begun) target (some (some bytes))
  | .moved | .stored =>
    Function.update (vacate source (content begun)) target (some (some output))
  | .gone => vacate source (Function.update (content begun) target (some (some output)))

/-- A run has ended at a point: it resolves only at `stored`. -/
structure EndsAt (key : String) (begun : Tree) (target : AbsolutePath)
    (source : Option AbsolutePath) (output : Bytes)
    (run : Program.Ended NodeError StoredFile Tree) (point : Point) : Prop where
  outcome : match point with
    | .stored => run.outcome = .ok { key := key, size := output.length }
    | _ => ∃ fault, run.outcome = .error fault
  holds : content run.state = point.leaves begun target source output

/-- How far a stream into a target gets. -/
def savePoint (fate : ℕ → Fate) (tree : Tree) (delivery : Delivery) (target : AbsolutePath) :
    Point :=
  if ¬ Makes (fate 0) tree target.dirname then .refused
  else if ¬ Opens (fate 1) (prepared (fate 0) tree target.dirname) target then .unopened
  else if Finishes (fate 1) delivery ∧ fate 2 = .completes then .stored
  else .left (leaves delivery.bytes (fate 1))

/-- How far `adopt` gets, and how many calls it makes. -/
def adoptPoint (fate : ℕ → Fate) (tree : Tree) (localPath : AbsolutePath) (staged : Bytes)
    (target : AbsolutePath) : Point × ℕ :=
  if ¬ Makes (fate 0) tree target.dirname then (.refused, 1)
  else if Moves (fate 1) (prepared (fate 0) tree target.dirname) target then
    (if fate 2 = .completes then .stored else .moved, 3)
  else if ¬ IsExdev (fate 1) then (.unopened, 2)
  else if ¬ Opens (fate 2) (prepared (fate 0) tree target.dirname) target then (.unopened, 3)
  else if fate 2 ≠ .completes then (.left (leaves staged (fate 2)), 3)
  else if fate 3 ≠ .completes then (.left staged, 4)
  else (if fate 4 = .completes ∧ localPath ≠ target then .stored else .gone, 5)

/-! ### Runs -/

section Runs

variable {fate : ℕ → Fate} {clock : ℕ → ℚ} {tree : Tree} {target : AbsolutePath} {key : String}

/-- The world in which the writes run. -/
abbrev world (fate : ℕ → Fate) (clock : ℕ → ℚ) : Program.World Call Reply NodeError Tree :=
  ({ fate := fate, clock := clock } : Machine).world

theorem world_apply (calls : ℕ) (request : Call) (tree : Tree) :
    world fate clock calls request tree = answer (fate calls) (clock calls) request tree := rfl

theorem content_insert (tree : Tree) (path : AbsolutePath) (node : Node) :
    content (tree.insert path node) = Function.update (content tree) path (some (held node)) := by
  ext1 other
  by_cases hother : other = path
  · subst hother
    rw [Function.update_self, content_insert_self]
  · rw [Function.update_of_ne hother, content_insert_of_ne tree node hother]

theorem content_erase (tree : Tree) (path : AbsolutePath) :
    content (tree.erase path) = Function.update (content tree) path none := by
  ext1 other
  by_cases hother : other = path
  · subst hother
    rw [Function.update_self, content_erase_self]
  · rw [Function.update_of_ne hother, content_erase_of_ne tree hother]

/-- The answer of a write that looks at its target: the size when `stat` works. -/
theorem run_storedAt_of_file {calls : ℕ} {bytes : Bytes} {mtimeMs : ℚ}
    (hfate : fate calls = .completes) (hfile : tree.lookup target = some (.file bytes mtimeMs)) :
    Program.run (world fate clock) (storedAt key target) calls tree =
      ⟨.ok { key := key, size := bytes.length }, calls + 1, tree⟩ := by
  rw [storedAt, Program.run_bind, stat, Program.run_perform, world_apply, hfate,
    answer_stat_of_some hfile]
  rfl

theorem run_storedAt_of_fails {calls : ℕ}
    (h : fate calls ≠ .completes ∨ tree.lookup target = none) :
    ∃ fault, Program.run (world fate clock) (storedAt key target) calls tree =
      ⟨.error fault, calls + 1, tree⟩ := by
  obtain ⟨fault, hanswer⟩ := answer_stat_of_fails h (clock calls)
  refine ⟨fault, ?_⟩
  rw [storedAt, Program.run_bind, stat, Program.run_perform, world_apply, hanswer]
  rfl

/-- A stream into a target, with its directory made first and its size looked up last. -/
def saveTo (key : String) (delivery : Delivery) (target : AbsolutePath) : Fs StoredFile := do
  mkdir target.dirname
  writeStream delivery target
  storedAt key target

theorem run_saveTo (key : String) (delivery : Delivery) :
    EndsAt key (prepared (fate 0) tree target.dirname) target none delivery.bytes
      (Program.run (world fate clock) (saveTo key delivery target) 0 tree)
      (savePoint fate tree delivery target) := by
  rw [saveTo, Program.run_bind, mkdir, Program.run_perform, world_apply, savePoint]
  by_cases hmakes : Makes (fate 0) tree target.dirname
  · rw [answer_mkdir_of_makes hmakes, Program.Ended.andThen_ok, Program.run_bind, writeStream,
      Program.run_perform, world_apply, if_neg (not_not.mpr hmakes)]
    show EndsAt _ _ _ _ _ (Program.Ended.andThen ⟨(writeTo target delivery (fate 1) (clock 1)
      (prepared (fate 0) tree target.dirname)).1, 2, _⟩ _) _
    by_cases hopens : Opens (fate 1) (prepared (fate 0) tree target.dirname) target
    · obtain ⟨outcome, houtcome, hwrite⟩ := writeTo_of_opens hopens delivery (clock 1)
      rw [if_neg (not_not.mpr hopens)]
      simp only [answer, hwrite]
      by_cases hfinishes : Finishes (fate 1) delivery
      · rw [houtcome.mpr hfinishes, Program.Ended.andThen_ok]
        have hleaves : leaves delivery.bytes (fate 1) = delivery.bytes := by
          rw [hfinishes.1, leaves]
        rw [hleaves]
        by_cases hstat : fate 2 = .completes
        · rw [if_pos ⟨hfinishes, hstat⟩, run_storedAt_of_file hstat (AList.lookup_insert _)]
          exact ⟨rfl, content_insert _ _ _⟩
        · obtain ⟨fault, hrun⟩ := @run_storedAt_of_fails _ clock
            ((prepared (fate 0) tree target.dirname).insert target
              (.file delivery.bytes (clock 1))) target key 2 (Or.inl hstat)
          rw [if_neg fun h ↦ hstat h.2, hrun]
          exact ⟨⟨fault, rfl⟩, content_insert _ _ _⟩
      · rw [if_neg fun h ↦ hfinishes h.1]
        cases outcome with
        | ok result => exact absurd (houtcome.mp rfl) hfinishes
        | error fault => exact ⟨⟨fault, rfl⟩, content_insert _ _ _⟩
    · obtain ⟨fault, hwrite⟩ := writeTo_of_not_opens hopens delivery (clock 1)
      rw [if_pos hopens]
      simp only [answer, hwrite]
      exact ⟨⟨fault, rfl⟩, rfl⟩
  · obtain ⟨fault, hanswer⟩ := answer_mkdir_of_not_makes hmakes (clock 0)
    rw [hanswer, if_pos hmakes]
    exact ⟨⟨fault, rfl⟩, rfl⟩

/-- `adopt` of a key that the guard lets through. -/
def adoptTo (key : String) (localPath target : AbsolutePath) : Fs StoredFile := do
  mkdir target.dirname
  tryCatch (rename localPath target) fun fault ↦
    if fault ≠ .system .exdev then throw fault
    else do
      copyStream localPath target
      rm localPath
  storedAt key target

/-- The copy that `adopt` falls back to. -/
def copyOver (localPath target : AbsolutePath) : Fs Unit := do
  copyStream localPath target
  rm localPath

def copyTo (key : String) (localPath target : AbsolutePath) : Fs StoredFile := do
  copyOver localPath target
  storedAt key target

theorem run_copyTo (key : String) {localPath : AbsolutePath} {staged : Bytes}
    (hlocal : content (prepared (fate 0) tree target.dirname) localPath = some (some staged))
    (hmakes : Makes (fate 0) tree target.dirname)
    (hmoves : ¬ Moves (fate 1) (prepared (fate 0) tree target.dirname) target)
    (hexdev : IsExdev (fate 1)) :
    EndsAt key (prepared (fate 0) tree target.dirname) target (some localPath) staged
        (Program.run (world fate clock) (copyTo key localPath target) 2
          (prepared (fate 0) tree target.dirname))
        (adoptPoint fate tree localPath staged target).1 ∧
      (Program.run (world fate clock) (copyTo key localPath target) 2
          (prepared (fate 0) tree target.dirname)).calls =
        (adoptPoint fate tree localPath staged target).2 := by
  obtain ⟨mtimeMs, hfile⟩ := content_eq_file_iff.mp hlocal
  rw [copyTo, Program.run_bind, copyOver, Program.run_bind, copyStream, Program.run_perform,
    world_apply, answer_copyStream hfile, adoptPoint, if_neg (not_not.mpr hmakes), if_neg hmoves,
    if_neg (not_not.mpr hexdev)]
  by_cases hopens : Opens (fate 2) (prepared (fate 0) tree target.dirname) target
  · obtain ⟨outcome, houtcome, hwrite⟩ := writeTo_of_opens hopens
      { bytes := staged, failure := none } (clock 2)
    rw [hwrite, if_neg (not_not.mpr hopens)]
    by_cases hcopied : fate 2 = .completes
    · have hleaves : leaves staged (fate 2) = staged := by rw [hcopied, leaves]
      rw [houtcome.mpr ⟨hcopied, rfl⟩, Program.Ended.andThen_ok, hleaves,
        if_neg (not_not.mpr hcopied), rm, Program.run_perform, world_apply]
      by_cases hremoved : fate 3 = .completes
      · obtain ⟨heldMs, hheld⟩ : ∃ heldMs, ((prepared (fate 0) tree target.dirname).insert target
            (.file staged (clock 2))).lookup localPath = some (.file staged heldMs) := by
          by_cases hsame : localPath = target
          · exact ⟨clock 2, by rw [hsame, AList.lookup_insert]⟩
          · exact ⟨mtimeMs, by rw [AList.lookup_insert_ne hsame, hfile]⟩
        rw [hremoved, answer_remove_of_file hheld, Program.Ended.andThen_ok,
          if_neg (not_not.mpr rfl)]
        have hleft : content (((prepared (fate 0) tree target.dirname).insert target
            (.file staged (clock 2))).erase localPath) =
            Point.gone.leaves (prepared (fate 0) tree target.dirname) target (some localPath)
              staged := by
          rw [content_erase, content_insert]
          rfl
        by_cases hstat : fate 4 = .completes ∧ localPath ≠ target
        · have htarget : (((prepared (fate 0) tree target.dirname).insert target
              (.file staged (clock 2))).erase localPath).lookup target =
              some (.file staged (clock 2)) := by
            rw [AList.lookup_erase_ne (Ne.symm hstat.2), AList.lookup_insert]
          rw [if_pos hstat, run_storedAt_of_file hstat.1 htarget]
          refine ⟨⟨rfl, hleft.trans ?_⟩, rfl⟩
          exact Function.update_comm (Ne.symm hstat.2) _ _ _
        · have hmissing : fate 4 ≠ .completes ∨ (((prepared (fate 0) tree target.dirname).insert
              target (.file staged (clock 2))).erase localPath).lookup target = none := by
            by_cases hfate : fate 4 = .completes
            · right
              have hsame : localPath = target := by_contra fun hne ↦ hstat ⟨hfate, hne⟩
              rw [hsame, AList.lookup_erase]
            · exact Or.inl hfate
          obtain ⟨fault, hrun⟩ := @run_storedAt_of_fails _ clock _ _ key _ hmissing
          rw [if_neg hstat, hrun]
          exact ⟨⟨⟨fault, rfl⟩, hleft⟩, rfl⟩
      · obtain ⟨fault, hanswer⟩ := answer_remove_of_fails hremoved localPath
          ((prepared (fate 0) tree target.dirname).insert target (.file staged (clock 2))) (clock 3)
        rw [hanswer, if_pos hremoved]
        exact ⟨⟨⟨fault, rfl⟩, content_insert _ _ _⟩, rfl⟩
    · rw [if_pos hcopied]
      cases outcome with
      | ok result => exact absurd (houtcome.mp rfl).1 hcopied
      | error fault => exact ⟨⟨⟨fault, rfl⟩, content_insert _ _ _⟩, rfl⟩
  · obtain ⟨fault, hwrite⟩ := writeTo_of_not_opens hopens
      { bytes := staged, failure := none } (clock 2)
    rw [hwrite, if_pos hopens]
    exact ⟨⟨⟨fault, rfl⟩, rfl⟩, rfl⟩

/-- Assumes: the local file is there. -/
theorem run_adoptTo (key : String) {localPath : AbsolutePath} {staged : Bytes}
    (hlocal : content tree localPath = some (some staged)) :
    EndsAt key (prepared (fate 0) tree target.dirname) target (some localPath) staged
        (Program.run (world fate clock) (adoptTo key localPath target) 0 tree)
        (adoptPoint fate tree localPath staged target).1 ∧
      (Program.run (world fate clock) (adoptTo key localPath target) 0 tree).calls =
        (adoptPoint fate tree localPath staged target).2 := by
  rw [adoptTo, Program.run_bind, mkdir, Program.run_perform, world_apply]
  by_cases hmakes : Makes (fate 0) tree target.dirname
  · rw [answer_mkdir_of_makes hmakes, Program.Ended.andThen_ok, Program.run_bind,
      Program.run_handle, rename, Program.run_perform, world_apply]
    have hkept : content (prepared (fate 0) tree target.dirname) localPath = some (some staged) :=
      content_prepared_of_file.mpr hlocal
    obtain ⟨mtimeMs, hfile⟩ := content_eq_file_iff.mp hkept
    by_cases hmoves : Moves (fate 1) (prepared (fate 0) tree target.dirname) target
    · rw [answer_rename_of_moves hmoves hfile, Program.Ended.handle_ok, Program.Ended.andThen_ok,
        adoptPoint, if_neg (not_not.mpr hmakes), if_pos hmoves]
      have hleft : content (((prepared (fate 0) tree target.dirname).erase localPath).insert target
          (.file staged mtimeMs)) =
            Point.moved.leaves (prepared (fate 0) tree target.dirname) target (some localPath)
              staged := by
        rw [content_insert, content_erase]
        rfl
      by_cases hstat : fate 2 = .completes
      · rw [run_storedAt_of_file hstat (AList.lookup_insert _), if_pos hstat]
        exact ⟨⟨rfl, hleft⟩, rfl⟩
      · obtain ⟨fault, hrun⟩ := @run_storedAt_of_fails _ clock
          (((prepared (fate 0) tree target.dirname).erase localPath).insert target
            (.file staged mtimeMs)) target key 2 (Or.inl hstat)
        rw [hrun, if_neg hstat]
        exact ⟨⟨⟨fault, rfl⟩, hleft⟩, rfl⟩
    · by_cases hexdev : IsExdev (fate 1)
      · rw [answer_rename_of_exdev hexdev, Program.Ended.handle_error, if_neg (not_not.mpr rfl),
          ← Program.run_bind]
        exact run_copyTo key hkept hmakes hmoves hexdev
      · obtain ⟨fault, hfault, hanswer⟩ := answer_rename_of_not_moves hmoves hexdev hfile (clock 1)
        rw [hanswer, Program.Ended.handle_error, if_pos hfault, adoptPoint,
          if_neg (not_not.mpr hmakes), if_neg hmoves, if_pos hexdev]
        exact ⟨⟨⟨fault, rfl⟩, rfl⟩, rfl⟩
  · obtain ⟨fault, hanswer⟩ := answer_mkdir_of_not_makes hmakes (clock 0)
    rw [hanswer, adoptPoint, if_pos hmakes]
    exact ⟨⟨⟨fault, rfl⟩, rfl⟩, rfl⟩

end Runs

/-- How far a write gets whose key the guard lets through. -/
def Write.point (fate : ℕ → Fate) (tree : Tree) (target : AbsolutePath) : Write → Point
  | .adopt localPath staged => (adoptPoint fate tree localPath staged target).1
  | .save source => savePoint fate tree source target
  | .saveFrom source stages =>
    savePoint fate tree (stages.foldl (fun delivered stage ↦ stage delivered) source) target

/-- Assumes: the key is let through, and the local file is there. -/
theorem ended_endsAt {root target : AbsolutePath} {key : String} {write : Write}
    {fate : ℕ → Fate} {clock : ℕ → ℚ} {tree : Tree} (hpath : pathFor root key = .ok target)
    (hsupplied : write.Supplied tree) :
    EndsAt key (prepared (fate 0) tree target.dirname) target write.source write.delivery.bytes
      (ended root key write fate clock tree) (write.point fate tree target) := by
  cases write with
  | save source =>
    rw [ended, Write.program, LocalStorage.save, hpath]
    exact run_saveTo key source
  | saveFrom source stages =>
    rw [ended, Write.program, LocalStorage.saveFrom, hpath]
    exact run_saveTo key _
  | adopt localPath staged =>
    rw [ended, Write.program, LocalStorage.adopt, hpath]
    exact (run_adoptTo key (hsupplied localPath rfl)).1

/-- A write whose key is refused makes no call. -/
theorem ended_of_refused {root : AbsolutePath} {key : String} {fault : NodeError}
    (hrefused : pathFor root key = .error fault) (write : Write) (fate : ℕ → Fate) (clock : ℕ → ℚ)
    (tree : Tree) : ended root key write fate clock tree = ⟨.error fault, 0, tree⟩ := by
  cases write with
  | save source =>
    rw [ended, Write.program, LocalStorage.save, hrefused]
    rfl
  | saveFrom source stages =>
    rw [ended, Write.program, LocalStorage.saveFrom, hrefused]
    rfl
  | adopt localPath staged =>
    rw [ended, Write.program, LocalStorage.adopt, hrefused]
    rfl

/-- Only `adopt` takes a local file away. -/
theorem source_of_point {fate : ℕ → Fate} {tree : Tree} {target : AbsolutePath} {write : Write}
    (h : write.point fate tree target = .moved ∨ write.point fate tree target = .gone) :
    ∃ localPath, write.source = some localPath := by
  have hsave : ∀ delivery, ¬ (savePoint fate tree delivery target = .moved ∨
      savePoint fate tree delivery target = .gone) := by
    intro delivery
    unfold savePoint
    split_ifs <;> simp
  cases write with
  | save source => exact absurd h (hsave _)
  | saveFrom source stages => exact absurd h (hsave _)
  | adopt localPath staged => exact ⟨localPath, rfl⟩

/-! ### When a write is all or nothing -/

/-- Of these directories, which `mkdir` has put, those that a key can name were there already. -/
def Ready (root : AbsolutePath) (tree : Tree) (made : List AbsolutePath) : Prop :=
  ∀ key path, pathFor root key = .ok path → path ∈ made → tree.lookup path ≠ none

/-- A write has gone through, or has stopped where it has done no harm: one that has not touched its
target, when `mkdir` has put no new directory that a key can name; one that has opened its target,
when besides an earlier file there holds the very bytes that are left; one that has renamed its
local file, when besides it has renamed it to itself. -/
def Point.Harmless (root : AbsolutePath) (tree : Tree) (made : List AbsolutePath)
    (target : AbsolutePath) (source : Option AbsolutePath) : Point → Prop
  | .stored => True
  | .refused | .unopened => Ready root tree made
  | .left bytes => Ready root tree made ∧ content tree target = some (some bytes)
  | .moved => Ready root tree made ∧ source = some target
  | .gone => False

/-- The condition on the key, the fates of the calls and the tree. -/
def Harmless (root : AbsolutePath) (key : String) (write : Write) (fate : ℕ → Fate) (tree : Tree) :
    Prop :=
  ∀ target, pathFor root key = .ok target →
    (write.point fate tree target).Harmless root tree (made (fate 0) tree target.dirname) target
      write.source

section Undoing

variable {root target : AbsolutePath} {key : String} {tree after : Tree} {fate : Fate}
  {source : Option AbsolutePath} {output : Bytes}

/-- Making directories is seen when one of them was missing. -/
theorem content_made_iff_ready :
    (∀ key path, pathFor root key = .ok path →
      content (prepared fate tree target.dirname) path = content tree path) ↔
      Ready root tree (made fate tree target.dirname) := by
  constructor
  · intro h key path hpath hmade hmissing
    have hsame := h key path hpath
    rw [content, lookup_prepared, if_pos hmade, content, hmissing] at hsame
    cases hsame
  · intro hready key path hpath
    by_cases hmade : path ∈ made fate tree target.dirname
    · rcases content_of_made hmade with hdirectory | hmissing
      · rw [content, lookup_prepared, if_pos hmade, hdirectory]
        rfl
      · exact absurd hmissing (hready key path hpath hmade)
    · rw [content, lookup_prepared, if_neg hmade]
      rfl

theorem sameAnswers_prepared_iff
    (hleft : content after = content (prepared fate tree target.dirname)) :
    SameAnswers root tree after ↔ Ready root tree (made fate tree target.dirname) := by
  rw [sameAnswers_iff fun path _ ↦ by rw [hleft, join_content_prepared], hleft]
  exact content_made_iff_ready

/-- A file at the target is seen unless it was there before. -/
theorem sameAnswers_left_iff (hpath : pathFor root key = .ok target) {bytes : Bytes}
    (hleft : content after = (Point.left bytes).leaves (prepared fate tree target.dirname) target
      source output) :
    SameAnswers root tree after ↔
      Ready root tree (made fate tree target.dirname) ∧
        content tree target = some (some bytes) := by
  have helsewhere : ∀ path, (∀ key, pathFor root key ≠ .ok path) →
      (content after path).join = (content tree path).join := by
    intro path hunnamed
    have hother : path ≠ target := by
      rintro rfl
      exact hunnamed key hpath
    rw [hleft, Point.leaves, Function.update_of_ne hother, join_content_prepared]
  rw [sameAnswers_iff helsewhere, hleft, ← content_made_iff_ready]
  constructor
  · intro h
    have htarget := h key target hpath
    rw [Point.leaves, Function.update_self] at htarget
    refine ⟨fun other path hother ↦ ?_, htarget.symm⟩
    by_cases hsame : path = target
    · rw [hsame]
      exact content_of_lookup_eq (lookup_prepared_dirname fate tree target)
    · have hunchanged := h other path hother
      rwa [Point.leaves, Function.update_of_ne hsame] at hunchanged
  · rintro ⟨hmade, htarget⟩ other path hother
    by_cases hsame : path = target
    · rw [hsame, Point.leaves, Function.update_self, htarget]
    · rw [Point.leaves, Function.update_of_ne hsame]
      exact hmade other path hother

end Undoing

section Points

variable {root target : AbsolutePath} {key : String} {write : Write} {fate : ℕ → Fate}
  {clock : ℕ → ℚ} {tree after : Tree} {point : Point}

theorem EndsAt.rejects {source : Option AbsolutePath} {output : Bytes}
    {run : Program.Ended NodeError StoredFile Tree}
    (h : EndsAt key tree target source output run point) (hpoint : point ≠ .stored) :
    ∃ fault, run.outcome = .error fault := by
  have houtcome := h.outcome
  cases point with
  | stored => exact absurd rfl hpoint
  | refused => exact houtcome
  | unopened => exact houtcome
  | left bytes => exact houtcome
  | moved => exact houtcome
  | gone => exact houtcome

/-- A write that rejects is all or nothing when it is undone. -/
theorem allOrNothing_of_rejects
    (h : ∃ fault, (ended root key write fate clock tree).outcome = .error fault) :
    AllOrNothing root key write fate clock tree ↔
      Undone root write tree (ended root key write fate clock tree).state := by
  obtain ⟨fault, houtcome⟩ := h
  rw [AllOrNothing, houtcome]
  rfl

variable (hsupplied : write.Supplied tree)

include hsupplied

theorem undone_prepared_iff
    (hleft : content after = content (prepared (fate 0) tree target.dirname)) :
    Undone root write tree after ↔ Ready root tree (made (fate 0) tree target.dirname) := by
  rw [Undone, sameAnswers_prepared_iff hleft]
  refine and_iff_left fun localPath hlocal ↦ ?_
  rw [hleft]
  exact content_prepared_of_file.mpr (hsupplied localPath hlocal)

theorem undone_left_iff (hpath : pathFor root key = .ok target) {bytes : Bytes}
    (hleft : content after = (Point.left bytes).leaves (prepared (fate 0) tree target.dirname)
      target write.source write.delivery.bytes) :
    Undone root write tree after ↔ Ready root tree (made (fate 0) tree target.dirname) ∧
      content tree target = some (some bytes) := by
  rw [Undone, sameAnswers_left_iff hpath hleft]
  refine and_iff_left_of_imp fun hkept localPath hlocal ↦ ?_
  rw [hleft]
  by_cases hsame : localPath = target
  · subst hsame
    rw [Point.leaves, Function.update_self, ← hkept.2]
    exact hsupplied localPath hlocal
  · rw [Point.leaves, Function.update_of_ne hsame]
    exact content_prepared_of_file.mpr (hsupplied localPath hlocal)

/-- A local file that was renamed and is not the target itself cannot be retried. -/
theorem undone_moved_iff (hpath : pathFor root key = .ok target) {localPath : AbsolutePath}
    (hsource : write.source = some localPath)
    (hleft : content after = Point.moved.leaves (prepared (fate 0) tree target.dirname) target
      write.source write.delivery.bytes) :
    Undone root write tree after ↔ Ready root tree (made (fate 0) tree target.dirname) ∧
      write.source = some target := by
  rw [hsource, Point.leaves] at hleft
  by_cases hsame : localPath = target
  · subst hsame
    have hheld : content tree localPath = some (some write.delivery.bytes) :=
      hsupplied localPath hsource
    have hback : content after =
        (Point.left write.delivery.bytes).leaves (prepared (fate 0) tree localPath.dirname)
          localPath write.source write.delivery.bytes := by
      rw [hleft, vacate, Function.update_idem]
      rfl
    rw [undone_left_iff hsupplied hpath hback, and_iff_left hheld, and_iff_left hsource]
  · constructor
    · intro hundone
      have hretry := hundone.2 localPath hsource
      rw [hleft, Function.update_of_ne hsame, vacate, Function.update_self] at hretry
      cases hretry
    · rintro ⟨-, htarget⟩
      exact absurd (Option.some.inj (hsource.symm.trans htarget)) hsame

omit hsupplied in
/-- A write that has gone through. -/
theorem done_of_stored (hpath : pathFor root key = .ok target)
    (hleft : content after = Point.stored.leaves (prepared (fate 0) tree target.dirname) target
      write.source write.delivery.bytes) :
    Done root key write tree { key := key, size := write.delivery.bytes.length } after := by
  refine ⟨rfl, ?_, fun other hother hlocal ↦ ?_⟩
  · rw [bytesAt_of_ok hpath, hleft, Point.leaves, Function.update_self]
    rfl
  · cases hnamed : pathFor root other with
    | error fault => rw [bytesAt_of_error hnamed, bytesAt_of_error hnamed]
    | ok path =>
      have htarget : path ≠ target := by
        rintro rfl
        exact hother (hnamed.trans hpath.symm)
      have hsame : content after path =
          content (prepared (fate 0) tree target.dirname) path := by
        rw [hleft, Point.leaves, Function.update_of_ne htarget]
        cases hsource : write.source with
        | none => rfl
        | some localPath =>
          refine Function.update_of_ne ?_ _ _
          rintro rfl
          exact hlocal path hsource hnamed
      rw [bytesAt_of_ok hnamed, bytesAt_of_ok hnamed, hsame, join_content_prepared]

end Points

/-- Storage writes are all or nothing exactly when they are harmless: they go through, or stop
before they have touched anything, or leave what was there. Assumes: the local file of `adopt` is
there. -/
theorem allOrNothing_iff (root : AbsolutePath) (key : String) (write : Write) (fate : ℕ → Fate)
    (clock : ℕ → ℚ) (tree : Tree) (hsupplied : write.Supplied tree) :
    AllOrNothing root key write fate clock tree ↔ Harmless root key write fate tree := by
  cases hpath : pathFor root key with
  | error fault =>
    have hended := ended_of_refused hpath write fate clock tree
    have hundone : AllOrNothing root key write fate clock tree := by
      rw [AllOrNothing, hended]
      exact ⟨fun other ↦ ⟨rfl, rfl⟩, hsupplied⟩
    refine iff_of_true hundone fun target htarget ↦ ?_
    cases hpath.symm.trans htarget
  | ok target =>
    have hends := @ended_endsAt root target key write fate clock tree hpath hsupplied
    have hharmless : Harmless root key write fate tree ↔
        (write.point fate tree target).Harmless root tree (made (fate 0) tree target.dirname)
          target write.source :=
      ⟨fun h ↦ h target hpath, fun h other hother ↦ Except.ok.inj (hpath.symm.trans hother) ▸ h⟩
    rw [hharmless]
    cases hpoint : write.point fate tree target with
    | refused =>
      rw [hpoint] at hends
      rw [allOrNothing_of_rejects (hends.rejects (by simp))]
      exact undone_prepared_iff hsupplied hends.holds
    | unopened =>
      rw [hpoint] at hends
      rw [allOrNothing_of_rejects (hends.rejects (by simp))]
      exact undone_prepared_iff hsupplied hends.holds
    | left bytes =>
      rw [hpoint] at hends
      rw [allOrNothing_of_rejects (hends.rejects (by simp))]
      exact undone_left_iff hsupplied hpath hends.holds
    | moved =>
      rw [hpoint] at hends
      rw [allOrNothing_of_rejects (hends.rejects (by simp))]
      obtain ⟨localPath, hsource⟩ := source_of_point (Or.inl hpoint)
      exact undone_moved_iff hsupplied hpath hsource hends.holds
    | gone =>
      obtain ⟨localPath, hsource⟩ := source_of_point (Or.inr hpoint)
      rw [hpoint] at hends
      rw [allOrNothing_of_rejects (hends.rejects (by simp))]
      refine iff_of_false (fun hundone ↦ ?_) fun h ↦ h
      have hretry := hundone.2 localPath hsource
      rw [hends.holds, hsource, Point.leaves, vacate, Function.update_self] at hretry
      cases hretry
    | stored =>
      rw [hpoint] at hends
      rw [AllOrNothing, hends.outcome]
      exact iff_of_true (done_of_stored hpath hends.holds) trivial

/-- `/tmp/staged` and the path of the key `outputs/a.csv`. -/
def stagedPath : AbsolutePath := ⟨["tmp", "staged"], by decide⟩

def outputPath : AbsolutePath := ⟨["data", "storage", "outputs", "a.csv"], by decide⟩

/-- A disk with storage, and a staged file of two bytes. -/
def stagedDisk : Tree :=
  ((∅ : Tree).insert outputPath.dirname .directory).insert stagedPath (.file [1, 2] 0)

theorem pathFor_output : pathFor dataStorage "outputs/a.csv" = .ok outputPath := rfl

/-- Every call completes but `rename`, which finds another file system. -/
def acrossFileSystems (calls : ℕ) : Fate := if calls = 1 then .fails .exdev none else .completes

/-- The staged file is moved across file systems. -/
theorem allOrNothing_staged :
    content stagedDisk stagedPath = some (some [1, 2]) ∧
      AllOrNothing dataStorage "outputs/a.csv" (.adopt stagedPath [1, 2]) acrossFileSystems
        (fun _ ↦ 0) stagedDisk := by
  have hheld : content stagedDisk stagedPath = some (some [1, 2]) := by decide
  have hsupplied : (Write.adopt stagedPath [1, 2]).Supplied stagedDisk := by
    intro localPath hlocal
    obtain rfl := Option.some.inj hlocal
    exact hheld
  have hharmless : Harmless dataStorage "outputs/a.csv" (.adopt stagedPath [1, 2])
      acrossFileSystems stagedDisk := by
    intro target htarget
    obtain rfl := Except.ok.inj (pathFor_output.symm.trans htarget)
    have hpoint : (adoptPoint acrossFileSystems stagedDisk stagedPath [1, 2] outputPath).1 =
        .stored := by decide
    rw [Write.point, hpoint]
    trivial
  exact ⟨hheld, (allOrNothing_iff dataStorage "outputs/a.csv" (.adopt stagedPath [1, 2])
    acrossFileSystems (fun _ ↦ 0) stagedDisk hsupplied).mpr hharmless⟩

/-- A stage that fails after one byte leaves an output that `exists` reports. -/
theorem not_allOrNothing_failingStage :
    ¬ AllOrNothing dataStorage "outputs/a.csv"
      (.saveFrom { bytes := [1, 2], failure := none }
        [fun delivered ↦ { bytes := delivered.bytes.take 1, failure := some (.thrown "bad row") }])
      (fun _ ↦ .completes) (fun _ ↦ 0) stagedDisk := by
  intro h
  rw [allOrNothing_of_rejects ⟨.thrown "bad row", by decide⟩] at h
  exact absurd (h.1 "outputs/a.csv").2 (by decide)

end FileForge.Storage.Atomicity
