import FileForge.Foundation.Footprint
import FileForge.Jobs.PassingTrouble

/-!
# What an attempt can change

Of the calls of an attempt only one writes to a file: the chain at whose end the result is stored,
and a chain that fails may leave anything there. All the others read, or report progress, or make
directories. `attempt_footprint` says what follows whatever trouble the attempt meets and however it
ends: at most one file is different afterwards, and it lies inside the storage.
-/

set_option autoImplicit false
set_option relaxedAutoImplicit false

namespace FileForge.Jobs.Footprint

open Foundation Foundation.JsonValue Foundation.Interaction Foundation.PosixPath
open Foundation.PosixPath.AbsolutePath (Inside)
open Foundation.FileTree (Bytes)
open Shared.Contract Files.Repository Csv Errors JobOptions Processors Attempts PassingTrouble
open Worker (ProcessorResult)

/-! ### Reading and writing -/

/-- The chains that write no file. -/
def Reads (name : ChainName) : Prop := name = .probe ∨ name = .readBack ∨ name = .inspect

theorem target_of_reads {chain : Chain} (h : Reads chain.name) : target chain = none := by
  cases chain <;> simp [Reads, Chain.name, target] at h ⊢

/-- A call that writes no file. -/
def Looks (request : Call) : Prop := ∀ chain, request = .chain chain → Reads chain.name

/-- A call that writes a file inside the storage. -/
def Changes (root : AbsolutePath) (request : Call) : Prop :=
  ∃ chain path, request = .chain chain ∧ target chain = some path ∧ Inside root path

theorem resolved_inside {root path : AbsolutePath} {key : String}
    (h : resolved root key = .ok path) : Inside root path := by
  unfold resolved at h
  split at h
  · rename_i full hfull
    split_ifs at h
    rw [← Except.ok.inj h]
    exact Storage.LocalStorage.pathFor_inside hfull
  · cases h
  · cases h

/-! ### The parts -/

abbrev WritesOnce (root : AbsolutePath) {α : Type} (program : JobTask α) : Prop :=
  Program.Once Looks (Changes root) program

section Parts

variable {root : AbsolutePath} {α β : Type}

/-- What is done with a target that was prepared. -/
theorem writesOnce_prepareTarget {key : String} {rest : AbsolutePath → JobTask β}
    (hrest : ∀ path, Inside root path → WritesOnce root (rest path)) :
    WritesOnce root (prepareTarget root key >>= rest) := by
  cases hresolved : resolved root key with
  | error error =>
    have hrefused : prepareTarget root key >>= rest = throw (.thrown error) := by
      rw [prepareTarget, resolveKey, hresolved]
      rfl
    rw [hrefused]
    exact .never (.finish _)
  | ok path =>
    have hprepared : prepareTarget root key >>= rest = (do
        let path ← (do
          Program.perform (Call.mkdir path.dirname)
          return path)
        rest path) := by
      rw [prepareTarget, resolveKey, hresolved]
      rfl
    rw [hprepared]
    have hmkdir : Looks (.mkdir path.dirname) := nofun
    exact .later hmkdir fun reply ↦ by
      cases reply with
      | ok _ => exact hrest path (resolved_inside hresolved)
      | error fault => exact .never (.finish _)

theorem writesOnce_awaitChain {chain : Chain} {path : AbsolutePath}
    (htarget : target chain = some path) (hinside : Inside root path) :
    WritesOnce root (awaitChain chain) :=
  Program.once_perform ⟨chain, path, rfl, htarget, hinside⟩

theorem writesOnce_runPipeline (args : ProcessorArgs) (edit : ImageEdit) (suffix ext : String) :
    WritesOnce args.root (runPipeline args edit suffix ext) := by
  refine Program.once_bind_of_looks (onChains_findRecord args) fun record ↦ ?_
  refine Program.once_bind_of_looks (onChains_openStream _ _) fun source ↦ ?_
  refine Program.once_bind_of_looks (onChains_updateProgress 40) fun _ ↦ ?_
  refine writesOnce_prepareTarget fun path hpath ↦ ?_
  refine (writesOnce_awaitChain rfl hpath).bind fun _ ↦ ?_
  exact onChains_bind (onChains_storedAt _ _) fun _ ↦
    onChains_bind (onChains_updateProgress 90) fun _ ↦ onChains_finish _

theorem looks_openImage (args : ProcessorArgs) : (openImage args).AllCalls Looks := by
  refine onChains_bind (onChains_findRecord args) fun record ↦ ?_
  refine onChains_bind (Program.allCalls_handle (onChains_bind (onChains_openStream _ _) fun _ ↦
    onChains_awaitChain (Or.inl rfl)) fun _ ↦ onChains_finish _) fun metadata ↦ ?_
  split_ifs <;> exact onChains_finish _

theorem looks_usable {Options : Type} (args : ProcessorArgs) (name : String)
    (parsed : Option Options) : (usable args name parsed).AllCalls Looks := by
  cases parsed <;> exact onChains_finish _

theorem looks_done (result : ProcessorResult) : Program.AllCalls Looks (do
    updateProgress 100
    return result) :=
  onChains_bind (onChains_updateProgress 100) fun _ ↦ onChains_finish _

/-- An image operation with what it does after its result is stored. -/
theorem writesOnce_image {args : ProcessorArgs} {Options : Type} {name : String}
    {parsed : Option Options} {edit : Options → ImageEdit} {suffix : Options → String}
    {ext : Options → Metadata → String}
    {rest : Options → Metadata → Storage.LocalStorage.StoredFile → JobTask ProcessorResult}
    (hrest : ∀ options metadata stored, (rest options metadata stored).AllCalls Looks) :
    WritesOnce args.root (do
      let options ← usable args name parsed
      let metadata ← openImage args
      updateProgress 20
      let stored ← runPipeline args (edit options) (suffix options) (ext options metadata)
      rest options metadata stored) := by
  refine Program.once_bind_of_looks (looks_usable args _ _) fun options ↦ ?_
  refine Program.once_bind_of_looks (looks_openImage args) fun metadata ↦ ?_
  refine Program.once_bind_of_looks (onChains_updateProgress 20) fun _ ↦ ?_
  exact (writesOnce_runPipeline args _ _ _).bind fun stored ↦ hrest options metadata stored

theorem writesOnce_processors (operation : Operation) (args : ProcessorArgs) :
    WritesOnce args.root (processors operation args) := by
  cases operation with
  | imageResize =>
    exact writesOnce_image fun _ _ _ ↦
      onChains_bind (onChains_readBack (Or.inr (Or.inl rfl)) _ _) fun _ ↦ looks_done _
  | imageConvert => exact writesOnce_image fun _ _ _ ↦ looks_done _
  | imageThumbnail => exact writesOnce_image fun _ _ _ ↦ looks_done _
  | csvValidate =>
    refine Program.once_bind_of_looks (looks_usable args _ _) fun options ↦ ?_
    refine Program.once_bind_of_looks (onChains_findRecord args) fun record ↦ ?_
    refine Program.once_bind_of_looks (onChains_updateProgress 10) fun _ ↦ ?_
    refine Program.once_bind_of_looks (Program.allCalls_handle (onChains_bind
      (onChains_openStream _ _) fun _ ↦ onChains_awaitChain (Or.inr (Or.inr rfl))) fun _ ↦
        onChains_finish _) fun report ↦ ?_
    refine Program.once_bind_of_looks (onChains_updateProgress 80) fun _ ↦ ?_
    refine writesOnce_prepareTarget fun path hpath ↦ ?_
    refine (writesOnce_awaitChain rfl hpath).bind fun _ ↦ ?_
    exact onChains_bind (onChains_storedAt _ _) fun _ ↦ looks_done _
  | csvTransform =>
    refine Program.once_bind_of_looks (looks_usable args _ _) fun options ↦ ?_
    refine Program.once_bind_of_looks (onChains_findRecord args) fun record ↦ ?_
    refine Program.once_bind_of_looks (onChains_updateProgress 10) fun _ ↦ ?_
    refine Program.Once.bind (Program.Once.handle ?_ fun _ ↦ onChains_finish _) fun _ ↦ looks_done _
    refine Program.once_bind_of_looks (onChains_openStream _ _) fun source ↦ ?_
    refine writesOnce_prepareTarget fun path hpath ↦ ?_
    refine (writesOnce_awaitChain rfl hpath).bind fun _ ↦ ?_
    exact onChains_bind (onChains_storedAt _ _) fun _ ↦ onChains_finish _

theorem writesOnce_runJobWithRetryPolicy (runtime : Runtime) (data : Json) :
    WritesOnce runtime.root (runJobWithRetryPolicy runtime data) := by
  refine Program.Once.handle ?_ fun _ ↦ onChains_finish _
  rw [runJob]
  cases JobPayloadSchema.safeParse data with
  | none => exact .never (.finish _)
  | some payload => exact writesOnce_processors _ { runtime with payload := payload }

end Parts

/-! ### The files -/

/-- What a chain leaves when it fails is at its target. -/
theorem files_leave (held : Held) (request : Call) (left : Chain → Option Bytes)
    (path : AbsolutePath) (hpath : ∀ chain, request = .chain chain → target chain ≠ some path) :
    (held.leave request left).files path = held.files path := by
  unfold Held.leave
  split
  · rename_i chain
    have hne := hpath chain rfl
    split
    · rename_i found bytes hfound _
      exact Function.update_of_ne (fun heq ↦ hne (hfound.trans (congrArg some heq.symm))) _ _
    · rfl
  · rfl

/-- A call leaves every file as it was but the one that it writes. -/
theorem files_answer (env : Env) (request : Call) (held : Held) (path : AbsolutePath)
    (hpath : ∀ chain, request = .chain chain → target chain ≠ some path) :
    (env.answer request held).2.files path = held.files path := by
  cases request with
  | redisGet key => rfl
  | updateProgress value => rfl
  | stat path =>
    simp only [Env.answer]
    split <;> rfl
  | mkdir directory => rfl
  | chain chain =>
    have hne := hpath chain rfl
    cases chain with
    | probe source => rfl
    | readBack source => rfl
    | inspect source options => rfl
    | writeReport report found =>
      exact Function.update_of_ne (fun heq ↦ hne (congrArg some heq.symm)) _ _
    | rewriteImage source edit found =>
      simp only [Env.answer, Env.flow]
      split
      · exact Function.update_of_ne (fun heq ↦ hne (congrArg some heq.symm)) _ _
      · exact files_leave held _ _ path hpath
    | rewriteCsv source options found =>
      simp only [Env.answer, Env.flow]
      split
      · exact Function.update_of_ne (fun heq ↦ hne (congrArg some heq.symm)) _ _
      · exact files_leave held _ _ path hpath

theorem files_troubled (env : Env) (trouble : Trouble) (calls : ℕ) (request : Call) (held : Held)
    (path : AbsolutePath) (hpath : ∀ chain, request = .chain chain → target chain ≠ some path) :
    (env.troubled trouble calls request held).2.files path = held.files path := by
  rw [Env.troubled, Interruption.interrupted]
  split
  · exact files_leave held request _ path hpath
  · exact files_answer env request held path hpath

/-- A call that looks leaves all files as they were. -/
theorem files_of_looks (env : Env) (trouble : Trouble) (calls : ℕ) {request : Call}
    (hlooks : Looks request) (held : Held) (path : AbsolutePath) :
    (env.troubled trouble calls request held).2.files path = held.files path := by
  refine files_troubled env trouble calls request held path fun chain hchain ↦ ?_
  rw [target_of_reads (hlooks chain hchain)]
  exact Option.some_ne_none path |>.symm

/-- Whatever trouble an attempt meets, and however it ends, at most one file is different
afterwards, and it lies inside the storage. -/
theorem attempt_footprint (env : Env) (trouble : Trouble) (data : Json)
    (files : AbsolutePath → Option Bytes) :
    ∃ changed, Inside env.root changed ∧ ∀ path, path ≠ changed →
      (attemptWith env trouble data files).state.files path = files path := by
  have hrun := Program.run_once (env.troubled trouble) (fun held ↦ held.files = files)
    (fun request held ↦ ∀ path,
      (∀ chain, request = .chain chain → target chain ≠ some path) → held.files path = files path)
    (fun calls _ held hlooks hheld ↦ funext fun path ↦
      (files_of_looks env trouble calls hlooks held path).trans (congrFun hheld path))
    (fun calls request held _ hheld path hpath ↦
      (files_troubled env trouble calls request held path hpath).trans (congrFun hheld path))
    (fun calls _ held _ hlooks hafter path hpath ↦
      (files_of_looks env trouble calls hlooks held path).trans (hafter path hpath))
    (writesOnce_runJobWithRetryPolicy env.toRuntime data) 0 { files := files } rfl
  rcases hrun with hsame | ⟨_, ⟨chain, changed, rfl, htarget, hinside⟩, hafter⟩
  · exact ⟨env.root, Inside.refl _, fun path _ ↦ congrFun hsame path⟩
  · refine ⟨changed, hinside, fun path hpath ↦ hafter path ?_⟩
    rintro found hfound hwritten
    rw [← Call.chain.inj hfound, htarget] at hwritten
    exact hpath (Option.some.inj hwritten).symm

end FileForge.Jobs.Footprint
