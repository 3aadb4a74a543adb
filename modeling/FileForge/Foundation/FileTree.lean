import FileForge.Foundation.Interaction
import FileForge.Foundation.PosixPath
import Mathlib.Data.List.AList
import Mathlib.Data.Rat.Defs

/-!
# A file system and the calls of a program on it

A tree of regular files and directories under absolute paths, and the asynchronous calls that a
Node program makes on it. `answer` is one call on a tree: the reply or the error, and the tree that
is left. `Machine` is everything around the program: which calls fail and how far a failing write
got (`Fate`), the clock that stamps written files, and what other processes do to the tree before a
call.

`stat` succeeds on directories, a read stream only fails when it is opened, and opening it on a
directory fails. A write stream truncates its target when it opens and leaves what was written when
the pipeline fails later. Removing with `force` succeeds on an absent path and fails on a directory.
A recursive `mkdir` that fails leaves the directories that it has made until then. Below a regular
file there is nothing, and what looks for something there fails with `ENOTDIR` (`absence`).

`removeFiles` is what a sweep of another process can do to the tree: regular files disappear
(`lookup_removeFiles`) and nothing else changes.
-/

set_option autoImplicit false
set_option relaxedAutoImplicit false

namespace FileForge.Foundation.FileTree

open Interaction PosixPath

/-! ### Trees -/

abbrev Bytes := List UInt8

/-- A regular file with the moment it was last written, or a directory. -/
inductive Node
  | file (bytes : Bytes) (mtimeMs : ℚ)
  | directory
  deriving DecidableEq

abbrev Tree := AList fun _ : AbsolutePath ↦ Node

/-- What `stat` reports. The size of a directory is nowhere used. -/
structure Stats where
  isFile : Bool
  size : ℕ
  mtimeMs : ℚ
  deriving DecidableEq

def Node.stats : Node → Stats
  | .file bytes mtimeMs => { isFile := true, size := bytes.length, mtimeMs := mtimeMs }
  | .directory => { isFile := false, size := 0, mtimeMs := 0 }

/-- The names in a directory. -/
def children (tree : Tree) (directory : AbsolutePath) : List String :=
  tree.keys.filterMap fun path ↦
    if path.dirname = directory then path.segments.getLast? else none

/-- The path and the directories above it, `/` left out. -/
def selfAndAncestors (path : AbsolutePath) : List AbsolutePath :=
  (List.range path.segments.length).map fun depth ↦
    ⟨path.segments.take (depth + 1), fun name hname ↦ path.names name (List.mem_of_mem_take hname)⟩

/-- A regular file stands at the path or above it. -/
def blocked (tree : Tree) (path : AbsolutePath) : Bool :=
  (selfAndAncestors path).any fun above ↦ (tree.lookup above).any fun node ↦ node.stats.isFile

/-- Directories are put at these paths. -/
def putDirectories (paths : List AbsolutePath) (tree : Tree) : Tree :=
  paths.foldl (fun tree path ↦ tree.insert path .directory) tree

/-- `rm` of one regular file; a directory stays. -/
def removeFile (tree : Tree) (path : AbsolutePath) : Tree :=
  match tree.lookup path with
  | some (.file _ _) => tree.erase path
  | _ => tree

def removeFiles (paths : List AbsolutePath) (tree : Tree) : Tree := paths.foldl removeFile tree

/-! ### Calls -/

inductive ErrorCode
  | enoent
  | enotdir
  | eisdir
  | eexist
  | exdev
  | other (code : String)
  deriving DecidableEq, Repr

/-- An error that a program sees: a system error with its code, or `new Error(message)`. -/
inductive NodeError
  | system (code : ErrorCode)
  | thrown (message : String)
  deriving DecidableEq, Repr

/-- What a chain of stream stages delivers to the write stream at its end: bytes, and then the end
of the stream or the error of a stage. -/
structure Delivery where
  bytes : Bytes
  failure : Option NodeError
  deriving DecidableEq

inductive Call
  /-- `mkdir(directory, { recursive: true })` -/
  | mkdir (directory : AbsolutePath)
  | stat (path : AbsolutePath)
  | readdir (directory : AbsolutePath)
  | rename (source target : AbsolutePath)
  /-- `rm(path, { force: true })` -/
  | remove (path : AbsolutePath)
  /-- A read stream opens its file and is read to the end. -/
  | openRead (path : AbsolutePath)
  /-- `pipeline(source, ...stages, createWriteStream(target))` -/
  | writeStream (delivery : Delivery) (target : AbsolutePath)
  /-- `pipeline(createReadStream(source), createWriteStream(target))` -/
  | copyStream (source target : AbsolutePath)
  deriving DecidableEq

/-- The paths a call names. -/
def Call.paths : Call → List AbsolutePath
  | .mkdir path | .stat path | .readdir path | .remove path | .openRead path => [path]
  | .writeStream _ target => [target]
  | .rename source target | .copyStream source target => [source, target]

abbrev Reply : Call → Type
  | .stat _ => Stats
  | .readdir _ => List String
  | .openRead _ => Bytes
  | _ => Unit

abbrev Fs := Program Call Reply NodeError

def mkdir (directory : AbsolutePath) : Fs Unit := Program.perform (Call.mkdir directory)

def stat (path : AbsolutePath) : Fs Stats := Program.perform (Call.stat path)

def readdir (directory : AbsolutePath) : Fs (List String) :=
  Program.perform (Call.readdir directory)

def rename (source target : AbsolutePath) : Fs Unit := Program.perform (Call.rename source target)

def rm (path : AbsolutePath) : Fs Unit := Program.perform (Call.remove path)

def openRead (path : AbsolutePath) : Fs Bytes := Program.perform (Call.openRead path)

def writeStream (delivery : Delivery) (target : AbsolutePath) : Fs Unit :=
  Program.perform (Call.writeStream delivery target)

def copyStream (source target : AbsolutePath) : Fs Unit :=
  Program.perform (Call.copyStream source target)

/-- What the system says of a path at which there is nothing. -/
def absence (tree : Tree) (path : AbsolutePath) : ErrorCode :=
  if blocked tree path.dirname then .enotdir else .enoent

/-- What the machine does with a call: it completes, or fails with a code. A failing stream call
has written some bytes, or has not even opened its target; a failing `mkdir` has made the
directories down to some depth. -/
inductive Fate
  | completes
  | fails (code : ErrorCode) (progress : Option ℕ)
  deriving DecidableEq

/-! ### One call on a tree -/

/-- A write stream on its target. -/
def writeTo (target : AbsolutePath) (delivery : Delivery) (fate : Fate) (now : ℚ) (tree : Tree) :
    Except NodeError Unit × Tree :=
  match fate, tree.lookup target, tree.lookup target.dirname with
  | .fails code none, _, _ => (.error (.system code), tree)
  | _, some .directory, _ => (.error (.system .eisdir), tree)
  | _, _, none => (.error (.system (absence tree target.dirname)), tree)
  | _, _, some (.file _ _) => (.error (.system .enotdir), tree)
  | .fails code (some written), _, some .directory =>
    (.error (.system code), tree.insert target (.file (delivery.bytes.take written) now))
  | .completes, _, some .directory =>
    match delivery.failure with
    | some failure => (.error failure, tree.insert target (.file delivery.bytes now))
    | none => (.ok (), tree.insert target (.file delivery.bytes now))

/-- The directories that a recursive `mkdir` puts, in the order in which it makes them. -/
def made (fate : Fate) (tree : Tree) (directory : AbsolutePath) : List AbsolutePath :=
  if blocked tree directory then []
  else
    match fate with
    | .completes => selfAndAncestors directory
    | .fails _ depth => (selfAndAncestors directory).take (depth.getD 0)

/-- What `mkdir` answers. -/
def mkdirReply (fate : Fate) (tree : Tree) (directory : AbsolutePath) : Except NodeError Unit :=
  match fate with
  | .fails code _ => .error (.system code)
  | .completes =>
    if ¬ blocked tree directory then .ok ()
    else if (tree.lookup directory).any fun node ↦ node.stats.isFile then
      .error (.system .eexist)
    else .error (.system .enotdir)

/-- One call: the reply or the error, and the tree it leaves. -/
def answer (fate : Fate) (now : ℚ) : (call : Call) → Tree → Except NodeError (Reply call) × Tree
  | .mkdir directory, tree =>
    (mkdirReply fate tree directory, putDirectories (made fate tree directory) tree)
  | .stat path, tree =>
    match fate, tree.lookup path with
    | .fails code _, _ => (.error (.system code), tree)
    | .completes, none => (.error (.system (absence tree path)), tree)
    | .completes, some node => (.ok node.stats, tree)
  | .readdir directory, tree =>
    match fate, tree.lookup directory with
    | .fails code _, _ => (.error (.system code), tree)
    | .completes, none => (.error (.system (absence tree directory)), tree)
    | .completes, some (.file _ _) => (.error (.system .enotdir), tree)
    | .completes, some .directory => (.ok (children tree directory), tree)
  | .rename source target, tree =>
    match fate, tree.lookup source, tree.lookup target, tree.lookup target.dirname with
    | .fails code _, _, _, _ => (.error (.system code), tree)
    | .completes, none, _, _ => (.error (.system (absence tree source)), tree)
    | .completes, some _, some .directory, _ => (.error (.system .eisdir), tree)
    | .completes, some _, _, none => (.error (.system (absence tree target.dirname)), tree)
    | .completes, some _, _, some (.file _ _) => (.error (.system .enotdir), tree)
    | .completes, some node, _, some .directory =>
      (.ok (), (tree.erase source).insert target node)
  | .remove path, tree =>
    match fate, tree.lookup path with
    | .fails code _, _ => (.error (.system code), tree)
    | .completes, some .directory => (.error (.system .eisdir), tree)
    | .completes, some (.file _ _) => (.ok (), tree.erase path)
    | .completes, none =>
      (if blocked tree path.dirname then .error (.system .enotdir) else .ok (), tree)
  | .openRead path, tree =>
    match fate, tree.lookup path with
    | .fails code _, _ => (.error (.system code), tree)
    | .completes, none => (.error (.system (absence tree path)), tree)
    | .completes, some .directory => (.error (.system .eisdir), tree)
    | .completes, some (.file bytes _) => (.ok bytes, tree)
  | .writeStream delivery target, tree => writeTo target delivery fate now tree
  | .copyStream source target, tree =>
    match tree.lookup source with
    | some (.file bytes _) => writeTo target { bytes := bytes, failure := none } fate now tree
    | some .directory =>
      writeTo target { bytes := [], failure := some (.system .eisdir) } fate now tree
    | none =>
      writeTo target { bytes := [], failure := some (.system (absence tree source)) } fate now tree

/-- Everything around a program: what becomes of its calls, the clock, and what other processes do
to the tree before a call. -/
structure Machine where
  fate : ℕ → Fate := fun _ ↦ .completes
  clock : ℕ → ℚ := fun _ ↦ 0
  others : ℕ → Tree → Tree := fun _ tree ↦ tree

/-- The machine as the world of a program. -/
def Machine.world (machine : Machine) : Program.World Call Reply NodeError Tree :=
  fun calls request tree ↦
    answer (machine.fate calls) (machine.clock calls) request (machine.others calls tree)

/-! ### What a sweep leaves -/

/-- Assumes: a path that is not removed. Its node stays. -/
theorem lookup_removeFile_of_ne (tree : Tree) {path other : AbsolutePath} (h : other ≠ path) :
    (removeFile tree path).lookup other = tree.lookup other := by
  unfold removeFile
  split
  · exact AList.lookup_erase_ne h
  · rfl

/-- The node of a removed path: a regular file is gone, everything else stays. -/
theorem lookup_removeFile_self (tree : Tree) (path : AbsolutePath) :
    (removeFile tree path).lookup path =
      if tree.lookup path = some .directory then some .directory else none := by
  unfold removeFile
  cases hnode : tree.lookup path with
  | none => simp [hnode]
  | some node =>
    cases node with
    | file bytes mtimeMs => simp
    | directory => simp [hnode]

/-- A node after a sweep was there before it. -/
theorem lookup_removeFiles {paths : List AbsolutePath} {path : AbsolutePath} {node : Node} :
    ∀ {tree : Tree}, (removeFiles paths tree).lookup path = some node →
      tree.lookup path = some node := by
  induction paths with
  | nil => exact fun h ↦ h
  | cons removed rest ih =>
    intro tree h
    have hone : (removeFile tree removed).lookup path = some node := ih h
    by_cases hpath : path = removed
    · subst hpath
      rw [lookup_removeFile_self] at hone
      split_ifs at hone with hdirectory
      rw [hdirectory, hone]
    · rwa [lookup_removeFile_of_ne tree hpath] at hone

end FileForge.Foundation.FileTree
