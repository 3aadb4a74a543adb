import FileForge.Jobs.StreamFailures

/-!
# Trouble that passes

A call to storage or to Redis that fails for a reason of the environment fails with an `Error` of
none of the classes that count as permanent, and the next attempt may succeed. The attempt ends
retryable exactly when its failure reaches the processor and is not met inside one of the `try`
blocks that relabel whatever they catch (`staysRetryable_iff`): the probe of an image, the reading
of a CSV, and the rewriting of a CSV up to the size of its result.

`Judged` is the invariant: a part of an attempt goes on as without trouble, or it has ended with a
failure of which that holds. It composes along the processor (`judged_bind`), part by part: outside
the `try` blocks a failure is handed on as it is (`judged_outside`), inside them it becomes
permanent (`judged_inside`). Which part a call belongs to is a matter of its number, or of the chain
that it awaits.
-/

set_option autoImplicit false
set_option relaxedAutoImplicit false

namespace FileForge.Jobs.PassingTrouble

open Foundation Foundation.JsonValue Foundation.Interaction Foundation.PosixPath
open Foundation.Interruption Foundation.StreamChain
open Foundation.FileTree (Bytes)
open Shared.Contract Files.Repository Csv Errors JobOptions Processors Attempts StreamFailures
open Worker (ProcessorResult)
open Storage.LocalStorage (StoredFile)

/-! ### The attempt -/

/-- An attempt under the retry policy, with trouble. -/
def attemptWith (env : Env) (trouble : Trouble) (data : Json)
    (files : AbsolutePath → Option Bytes) : Program.Ended Fault ProcessorResult Held :=
  Program.run (env.troubled trouble) (runJobWithRetryPolicy env.toRuntime data) 0
    { files := files }

/-- The attempt is rejected with an error that leaves the remaining attempts to be used. -/
def StaysRetryable (outcome : Except Fault ProcessorResult) : Prop :=
  ∃ error, outcome = .error (.thrown error) ∧ error.isUnrecoverable = false

/-- The failures are errors of the environment, which are of no class of the job errors. -/
def Environmental : Trouble → Prop
  | .streams _ actions => ∀ failure ∈ Layout.failures actions, ∃ message, failure.2 = .error message
  | _ => True

/-! ### Where trouble strikes -/

/-- The numbers of the calls inside the `try` block of an operation: the first, and the first
after. -/
def guardedCalls : Operation → ℕ × ℕ
  | .imageResize | .imageConvert | .imageThumbnail => (1, 3)
  | .csvValidate => (2, 4)
  | .csvTransform => (2, 6)

/-- The chains inside a `try` block. -/
def IsGuarded (name : ChainName) : Prop := name = .probe ∨ name = .inspect ∨ name = .rewriteCsv

/-- The trouble strikes inside the `try` block of the operation. -/
def StrikesGuarded (operation : Operation) : Trouble → Prop
  | .call number _ => (guardedCalls operation).1 ≤ number ∧ number < (guardedCalls operation).2
  | .streams name _ => IsGuarded name
  | .report _ => False

/-- The processor hears of the failure: no source of an image has failed, nor one that nobody
listens to yet, and it is no report of progress that nobody awaits. -/
def IsHeard : Trouble → Prop
  | .call _ _ => True
  | .streams name actions => HearsAll name actions
  | .report _ => False

/-- The failure of a call that was struck: an error of the environment, if it is heard of. -/
theorem fault_of_interrupts {env : Env} {trouble : Trouble} (henvironmental : Environmental trouble)
    {number : ℕ} {request : Call} {held : Held} {fault : Fault}
    (h : trouble.interrupts env number request held = some fault) :
    (IsHeard trouble ∧ ∃ message, fault = .thrown (.error message)) ∨
      (¬ IsHeard trouble ∧ fault = .unsettled) := by
  cases trouble with
  | call struck message =>
    refine Or.inl ⟨trivial, message, ?_⟩
    cases request <;> simp [Trouble.interrupts] at h <;> exact h.2.symm
  | streams name actions =>
    obtain ⟨chain, state, -, -, hstate, rfl⟩ := streams_of_interrupts h
    cases hfault : streamFault state with
    | unsettled =>
      refine Or.inr ⟨fun hheard ↦ ?_, rfl⟩
      exact (settles_iff hstate).mpr hheard hfault
    | thrown error =>
      have hsettles : streamFault state ≠ .unsettled := by simp [hfault]
      refine Or.inl ⟨(settles_iff hstate).mp hsettles, ?_⟩
      have hpromise : state.promise = some (.error error) := by
        obtain ⟨⟨found, hfound⟩, hunhandled⟩ := (streamFault_ne_unsettled_iff state).mp hsettles
        rw [streamFault, hfound, hunhandled, Fault.thrown.injEq] at hfault
        exact hfault ▸ hfound
      obtain ⟨-, hrun⟩ := failedStreams_eq_some hstate
      obtain ⟨stage, hmem, -⟩ := (Layout.account_run hrun).rejected error hpromise
      obtain ⟨message, hmessage⟩ := henvironmental _ hmem
      exact ⟨message, congrArg Fault.thrown hmessage⟩
  | report message =>
    refine Or.inr ⟨id, ?_⟩
    cases request <;> simp [Trouble.interrupts] at h
    exact h.2.symm

/-- A call that was struck is struck by its number, or awaits the chain that fails. -/
theorem place_of_interrupts {env : Env} {trouble : Trouble} {number : ℕ} {request : Call}
    {held : Held} {fault : Fault}
    (h : trouble.interrupts env number request held = some fault) :
    (∃ message, trouble = .call number message) ∨
      (∃ chain actions, request = .chain chain ∧ trouble = .streams chain.name actions) ∨
      ∃ message, trouble = .report message := by
  cases trouble with
  | call struck message =>
    refine Or.inl ⟨message, ?_⟩
    cases request <;> simp [Trouble.interrupts] at h <;> rw [h.1]
  | streams name actions =>
    obtain ⟨chain, state, hrequest, hname, -, -⟩ := streams_of_interrupts h
    exact Or.inr (Or.inl ⟨chain, actions, hrequest, by rw [hname]⟩)
  | report message => exact Or.inr (Or.inr ⟨message, rfl⟩)

/-! ### The chains and the calls of the parts -/

/-- The chains that a program awaits have the property. -/
def OnChains {α : Type} (property : ChainName → Prop) (program : JobTask α) : Prop :=
  program.AllCalls fun request ↦ ∀ chain, request = .chain chain → property chain.name

section Parts

variable {property : ChainName → Prop} {α β : Type}

theorem onChains_bind {program : JobTask α} {rest : α → JobTask β}
    (hprogram : OnChains property program) (hrest : ∀ result, OnChains property (rest result)) :
    OnChains property (program >>= rest) :=
  Program.allCalls_bind hprogram hrest

theorem onChains_finish (outcome : Except Fault α) :
    OnChains property (.finish outcome : JobTask α) := .finish outcome

theorem onChains_perform {request : Call} (hrequest : ∀ chain, request ≠ .chain chain) :
    OnChains property (Program.perform request : JobTask (Reply request)) :=
  Program.allCalls_perform fun chain hchain ↦ absurd hchain (hrequest chain)

theorem onChains_updateProgress (value : ℕ) : OnChains property (updateProgress value) :=
  onChains_perform nofun

theorem onChains_awaitChain {chain : Chain} (h : property chain.name) :
    OnChains property (awaitChain chain) :=
  Program.allCalls_perform fun _ hchain ↦ Call.chain.inj hchain ▸ h

theorem onChains_findRecord (args : ProcessorArgs) : OnChains property (findRecord args) := by
  refine onChains_bind (onChains_bind (onChains_perform nofun) fun raw ↦ ?_) fun record ↦ ?_
  · rcases raw with _ | _ | value <;> exact onChains_finish _
  · cases record <;> exact onChains_finish _

theorem onChains_openStream (root : AbsolutePath) (key : String) :
    OnChains property (openStream root key) :=
  onChains_bind (onChains_finish _) fun _ ↦ onChains_bind (onChains_perform nofun) fun _ ↦
    onChains_finish _

theorem onChains_prepareTarget (root : AbsolutePath) (key : String) :
    OnChains property (prepareTarget root key) :=
  onChains_bind (onChains_finish _) fun _ ↦ onChains_bind (onChains_perform nofun) fun _ ↦
    onChains_finish _

theorem onChains_storedAt (key : String) (target : AbsolutePath) :
    OnChains property (storedAt key target) :=
  onChains_bind (onChains_perform nofun) fun _ ↦ onChains_finish _

theorem onChains_runPipeline (h : property .rewriteImage) (args : ProcessorArgs) (edit : ImageEdit)
    (suffix ext : String) : OnChains property (runPipeline args edit suffix ext) :=
  onChains_bind (onChains_findRecord args) fun _ ↦ onChains_bind (onChains_openStream _ _) fun _ ↦
    onChains_bind (onChains_updateProgress 40) fun _ ↦
      onChains_bind (onChains_prepareTarget _ _) fun _ ↦
        onChains_bind (onChains_awaitChain h) fun _ ↦ onChains_bind (onChains_storedAt _ _) fun _ ↦
          onChains_bind (onChains_updateProgress 90) fun _ ↦ onChains_finish _

theorem onChains_readBack (h : property .readBack) (args : ProcessorArgs) (key : String) :
    OnChains property (readBack args key) :=
  onChains_bind (onChains_openStream _ _) fun _ ↦ onChains_bind (onChains_awaitChain h) fun _ ↦
    onChains_finish _

theorem onChains_rewriteSource (h : property .rewriteCsv) (args : ProcessorArgs)
    (record : FileRecord) (options : Delimited Transform.TransformOptions) :
    OnChains property (rewriteSource args record options) :=
  onChains_bind (onChains_openStream _ _) fun _ ↦
    onChains_bind (onChains_prepareTarget _ _) fun _ ↦ onChains_bind (onChains_awaitChain h) fun _ ↦
      onChains_bind (onChains_storedAt _ _) fun _ ↦ onChains_finish _

theorem makes_findRecord (args : ProcessorArgs) : Makes 1 (findRecord args) := by
  show Makes (1 + 0 + 0) _
  refine makes_bind (makes_bind (makes_perform _) fun raw ↦ ?_) fun record ↦ ?_
  · rcases raw with _ | _ | value
    · exact makes_pure _
    · exact makes_throw 0 _
    · exact makes_pure _
  · cases record with
    | none => exact makes_throw 0 _
    | some record => exact makes_pure _

theorem makes_openStream (root : AbsolutePath) (key : String) : Makes 1 (openStream root key) := by
  show Makes (0 + (1 + 0)) _
  exact makes_bind (makes_ofExcept _) fun _ ↦ makes_bind (makes_perform _) fun _ ↦ makes_pure _

theorem makes_prepareTarget (root : AbsolutePath) (key : String) :
    Makes 1 (prepareTarget root key) := by
  show Makes (0 + (1 + 0)) _
  exact makes_bind (makes_ofExcept _) fun _ ↦ makes_bind (makes_perform _) fun _ ↦ makes_pure _

theorem makes_storedAt (key : String) (target : AbsolutePath) : Makes 1 (storedAt key target) := by
  show Makes (1 + 0) _
  exact makes_bind (makes_perform _) fun _ ↦ makes_pure _

theorem makes_probeImage (args : ProcessorArgs) (record : FileRecord) :
    Makes 2 (probeImage args record) := by
  show Makes (1 + 1) _
  exact makes_bind (makes_openStream _ _) fun _ ↦ makes_perform _

theorem makes_openImage (args : ProcessorArgs) : Makes 3 (openImage args) := by
  show Makes (1 + (2 + 0)) _
  refine makes_bind (makes_findRecord args) fun record ↦ ?_
  refine makes_bind (makes_handle (makes_probeImage args record)) fun metadata ↦ ?_
  split_ifs
  · exact makes_pure _
  · exact makes_throw 0 _

theorem makes_inspectSource (args : ProcessorArgs) (record : FileRecord)
    (options : Delimited Validate.ValidateOptions) :
    Makes 2 (inspectSource args record options) := by
  show Makes (1 + 1) _
  exact makes_bind (makes_openStream _ _) fun _ ↦ makes_perform _

theorem makes_rewriteSource (args : ProcessorArgs) (record : FileRecord)
    (options : Delimited Transform.TransformOptions) :
    Makes 4 (rewriteSource args record options) := by
  show Makes (1 + (1 + (1 + (1 + 0)))) _
  exact makes_bind (makes_openStream _ _) fun _ ↦ makes_bind (makes_prepareTarget _ _) fun _ ↦
    makes_bind (makes_perform _) fun _ ↦ makes_bind (makes_storedAt _ _) fun _ ↦ makes_pure _

end Parts

/-! ### Judging the parts -/

/-- The failure leaves the attempt retryable under the retry policy. -/
def Spared (fault : Fault) : Prop :=
  ∃ error, fault = .thrown error ∧ error.marked.isUnrecoverable = false

/-- A part of an attempt goes on as without trouble, or it has ended with a failure that leaves the
attempt retryable exactly when it is heard of and was not met inside the `try` block. -/
def Judged (env : Env) (trouble : Trouble) (operation : Operation) {α : Type}
    (program : JobTask α) (calls : ℕ) (held : Held) : Prop :=
  Program.run (env.troubled trouble) program calls held =
      Program.run env.world program calls held ∨
    ∃ fault last found,
      Program.run (env.troubled trouble) program calls held = ⟨.error fault, last, found⟩ ∧
        (Spared fault ↔ IsHeard trouble ∧ ¬ StrikesGuarded operation trouble)

section Judging

variable {env : Env} {trouble : Trouble} {operation : Operation} {α β : Type} {calls : ℕ}
  {held : Held}

/-- A part that makes no call. -/
theorem judged_finish (outcome : Except Fault α) :
    Judged env trouble operation (.finish outcome) calls held := Or.inl rfl

theorem judged_bind {program : JobTask α} {rest : α → JobTask β}
    (hprogram : Judged env trouble operation program calls held)
    (hrest : ∀ result, (Program.run env.world program calls held).outcome = .ok result →
      Judged env trouble operation (rest result) (Program.run env.world program calls held).calls
        (Program.run env.world program calls held).state) :
    Judged env trouble operation (program >>= rest) calls held := by
  rw [Judged, Program.run_bind, Program.run_bind]
  rcases hprogram with hsame | ⟨fault, last, found, hrun, hspared⟩
  · rw [hsame]
    cases houtcome : (Program.run env.world program calls held).outcome with
    | ok result =>
      rw [Program.Ended.andThen, Program.Ended.andThen, houtcome]
      exact hrest result houtcome
    | error fault =>
      rw [Program.Ended.andThen, Program.Ended.andThen, houtcome]
      exact Or.inl rfl
  · rw [hrun]
    exact Or.inr ⟨fault, last, found, rfl, hspared⟩

/-- An `Error` of no class of the job errors is left as it is. -/
theorem spared_error (message : String) : Spared (.thrown (.error message)) := ⟨_, rfl, rfl⟩

theorem not_spared_unsettled : ¬ Spared .unsettled := by
  rintro ⟨error, herror, -⟩
  cases herror

variable (henvironmental : Environmental trouble)

include henvironmental

/-- A part outside the `try` block: no call of it has a number inside, and no chain of it is
guarded. -/
theorem judged_outside {program : JobTask α} (hrelays : Relays Eq program)
    (hchains : OnChains (fun name ↦ ¬ IsGuarded name) program)
    (hrange : ∀ number, calls ≤ number →
      number < (Program.run env.world program calls held).calls →
        ¬ ((guardedCalls operation).1 ≤ number ∧ number < (guardedCalls operation).2)) :
    Judged env trouble operation program calls held := by
  rcases troubled_cases env trouble hrelays hchains calls held with
    hsame | ⟨number, request, before, fault, _, last, struck, found, hrequest, hstruck, hlow,
      hhigh, rfl, hrun⟩
  · exact Or.inl hsame
  · refine Or.inr ⟨fault, last, _, hrun, ?_⟩
    have hplace : ¬ StrikesGuarded operation trouble := by
      rcases place_of_interrupts hstruck with
        ⟨message, rfl⟩ | ⟨chain, actions, rfl, rfl⟩ | ⟨message, rfl⟩
      · exact hrange number hlow hhigh
      · exact hrequest chain rfl
      · exact id
    rcases fault_of_interrupts henvironmental hstruck with
      ⟨hheard, message, rfl⟩ | ⟨hunheard, rfl⟩
    · exact iff_of_true (spared_error message) ⟨hheard, hplace⟩
    · exact iff_of_false not_spared_unsettled fun h ↦ hunheard h.1

/-- A part before the `try` block. -/
theorem judged_before {program : JobTask α} (hrelays : Relays Eq program)
    (hchains : OnChains (fun name ↦ ¬ IsGuarded name) program) {count : ℕ}
    (hmakes : Makes count program) (hcount : calls + count ≤ (guardedCalls operation).1) :
    Judged env trouble operation program calls held := by
  refine judged_outside henvironmental hrelays hchains fun number _ hhigh hinside ↦ ?_
  have hle := (hmakes.calls_run env.world calls held).1
  omega

/-- A part after the `try` block. -/
theorem judged_after {program : JobTask α} (hrelays : Relays Eq program)
    (hchains : OnChains (fun name ↦ ¬ IsGuarded name) program)
    (hcalls : (guardedCalls operation).2 ≤ calls) :
    Judged env trouble operation program calls held :=
  judged_outside henvironmental hrelays hchains fun _ hlow _ hinside ↦
    absurd hinside.2 (Nat.not_lt.mpr (hcalls.trans hlow))

/-- The `try` block: whatever its body has thrown becomes permanent. -/
theorem judged_inside {label : JobError → JobError}
    (hlabel : ∀ error, (label error).marked.isUnrecoverable = true) {body : JobTask α}
    (hrelays : Relays Eq body) (hchains : OnChains IsGuarded body) {count : ℕ}
    (hmakes : Makes count body) (hlow : (guardedCalls operation).1 ≤ calls)
    (hhigh : calls + count ≤ (guardedCalls operation).2) :
    Judged env trouble operation (rethrowing label body) calls held := by
  have hcalls : OnChains IsGuarded (rethrowing label body) :=
    Program.allCalls_handle hchains fun _ ↦ .finish _
  rcases troubled_cases env trouble (relays_rethrowing label hrelays) hcalls calls held with
    hsame | ⟨number, request, before, fault, _, last, struck, found, hrequest, hstruck, hfirst,
      hlast, rfl, hrun⟩
  · exact Or.inl hsame
  · refine Or.inr ⟨_, last, _, hrun, ?_⟩
    have hle : (Program.run env.world (rethrowing label body) calls held).calls ≤ calls + count :=
      ((makes_handle hmakes).calls_run env.world calls held).1
    refine iff_of_false ?_ ?_
    · rintro ⟨error, herror, hspared⟩
      cases fault with
      | unsettled => cases herror
      | thrown error' =>
        obtain rfl := Fault.thrown.inj herror
        rw [hlabel] at hspared
        cases hspared
    · rintro ⟨hheard, hplace⟩
      rcases place_of_interrupts hstruck with
        ⟨message, rfl⟩ | ⟨chain, actions, rfl, rfl⟩ | ⟨message, rfl⟩
      · exact hplace ⟨by omega, by omega⟩
      · exact hplace (hrequest chain rfl)
      · exact hheard

end Judging

/-! ### The processors -/

section Processors

variable {env : Env} {trouble : Trouble} (henvironmental : Environmental trouble)

/-- Options are checked without a call. -/
theorem judged_usable {operation : Operation} {α Options : Type} (args : ProcessorArgs)
    (name : String) (parsed : Option Options) {rest : Options → JobTask α} {held : Held}
    (hrest : ∀ options, Judged env trouble operation (rest options) 0 held) :
    Judged env trouble operation (usable args name parsed >>= rest) 0 held := by
  cases parsed with
  | none => exact judged_finish _
  | some options => exact hrest options

include henvironmental

theorem judged_openImage {operation : Operation} (hoperation : guardedCalls operation = (1, 3))
    (args : ProcessorArgs) (held : Held) :
    Judged env trouble operation (openImage args) 0 held := by
  have hbefore : Judged env trouble operation (findRecord args) 0 held :=
    judged_before henvironmental (relays_findRecord args) (onChains_findRecord args)
      (makes_findRecord args) (by rw [hoperation])
  refine judged_bind hbefore fun record hrecord ↦ ?_
  rw [((makes_findRecord args).calls_run env.world 0 held).2 record hrecord]
  have hinside : Judged env trouble operation
      (rethrowing asInvalidImage (probeImage args record)) (0 + 1)
      (Program.run env.world (findRecord args) 0 held).state :=
    judged_inside henvironmental asInvalidImage_marked (relays_probeImage args record)
      (onChains_bind (onChains_openStream _ _) fun _ ↦ onChains_awaitChain (Or.inl rfl))
      (makes_probeImage args record) (by rw [hoperation]) (by rw [hoperation])
  refine judged_bind hinside fun metadata _ ↦ ?_
  split_ifs <;> exact judged_finish _

/-- What an image operation does once the image is open. -/
theorem judged_image {operation : Operation} (hoperation : guardedCalls operation = (1, 3))
    (args : ProcessorArgs) {rest : Metadata → JobTask ProcessorResult}
    (hrelays : ∀ metadata, Relays Eq (rest metadata))
    (hchains : ∀ metadata, OnChains (fun name ↦ ¬ IsGuarded name) (rest metadata)) (held : Held) :
    Judged env trouble operation (openImage args >>= rest) 0 held := by
  refine judged_bind (judged_openImage henvironmental hoperation args held) fun metadata hopen ↦ ?_
  refine judged_after henvironmental (hrelays metadata) (hchains metadata) ?_
  rw [((makes_openImage args).calls_run env.world 0 held).2 metadata hopen, hoperation]

/-- The end of `convertImage` and `thumbnailImage`. -/
theorem judged_edit {operation : Operation} (hoperation : guardedCalls operation = (1, 3))
    (args : ProcessorArgs) (edit : ImageEdit) (suffix ext : String)
    (result : Metadata → StoredFile → ProcessorResult) (held : Held) :
    Judged env trouble operation (do
      let metadata ← openImage args
      updateProgress 20
      let output ← runPipeline args edit suffix ext
      updateProgress 100
      return result metadata output) 0 held := by
  refine judged_image henvironmental hoperation args (fun metadata ↦ ?_) (fun metadata ↦ ?_) held
  · exact relays_bind (relays_call _) fun _ ↦ relays_bind (relays_runPipeline _ _ _ _) fun _ ↦
      relays_bind (relays_call _) fun _ ↦ relays_pure _
  · exact onChains_bind (onChains_updateProgress 20) fun _ ↦
      onChains_bind (onChains_runPipeline (by simp [IsGuarded]) args edit suffix ext) fun _ ↦
        onChains_bind (onChains_updateProgress 100) fun _ ↦ onChains_finish _

theorem judged_resizeImage (args : ProcessorArgs) (held : Held) :
    Judged env trouble .imageResize (resizeImage args) 0 held := by
  refine judged_usable args _ _ fun options ↦ ?_
  refine judged_image henvironmental rfl args (fun metadata ↦ ?_) (fun metadata ↦ ?_) held
  · exact relays_bind (relays_call _) fun _ ↦ relays_bind (relays_runPipeline _ _ _ _) fun _ ↦
      relays_bind (relays_readBack _ _) fun _ ↦ relays_bind (relays_call _) fun _ ↦ relays_pure _
  · exact onChains_bind (onChains_updateProgress 20) fun _ ↦
      onChains_bind (onChains_runPipeline (by simp [IsGuarded]) args _ _ _) fun _ ↦
        onChains_bind (onChains_readBack (by simp [IsGuarded]) args _) fun _ ↦
          onChains_bind (onChains_updateProgress 100) fun _ ↦ onChains_finish _

/-- A CSV operation: the record and a report of progress, the `try` block, and the rest. -/
theorem judged_csv {operation : Operation} {last : ℕ} {α : Type}
    (hoperation : guardedCalls operation = (2, last)) (args : ProcessorArgs)
    {body : FileRecord → JobTask α} {rest : FileRecord → α → JobTask ProcessorResult} {count : ℕ}
    (hcount : 2 + count = last) (hrelays : ∀ record, Relays Eq (body record))
    (hchains : ∀ record, OnChains IsGuarded (body record))
    (hmakes : ∀ record, Makes count (body record))
    (hrelaysRest : ∀ record result, Relays Eq (rest record result))
    (hchainsRest : ∀ record result,
      OnChains (fun name ↦ ¬ IsGuarded name) (rest record result)) (held : Held) :
    Judged env trouble operation (do
      let record ← findRecord args
      updateProgress 10
      let result ← rethrowing Transform.asInvalidCsv (body record)
      rest record result) 0 held := by
  have hrecord : Judged env trouble operation (findRecord args) 0 held :=
    judged_before henvironmental (relays_findRecord args) (onChains_findRecord args)
      (makes_findRecord args) (by simp [hoperation])
  refine judged_bind hrecord fun record hfound ↦ ?_
  rw [((makes_findRecord args).calls_run env.world 0 held).2 record hfound]
  have hprogress : Judged env trouble operation (updateProgress 10) (0 + 1)
      (Program.run env.world (findRecord args) 0 held).state :=
    judged_before henvironmental (relays_call _) (onChains_updateProgress 10) (makes_perform _)
      (by rw [hoperation])
  refine judged_bind hprogress fun _ _ ↦ ?_
  have hinside (before : Held) : Judged env trouble operation
      (rethrowing Transform.asInvalidCsv (body record)) 2 before :=
    judged_inside henvironmental asInvalidCsv_marked (hrelays record) (hchains record)
      (hmakes record) (by rw [hoperation]) (by rw [hoperation, hcount])
  refine judged_bind (hinside _) fun result hresult ↦ ?_
  refine judged_after henvironmental (hrelaysRest record result) (hchainsRest record result) ?_
  have hcalls := ((makes_handle (hmakes record)).calls_run env.world _ _).2 result hresult
  rw [hoperation]
  exact (hcount.symm.trans hcalls.symm).le

theorem judged_validateCsv (args : ProcessorArgs) (held : Held) :
    Judged env trouble .csvValidate (validateCsv args) 0 held := by
  refine judged_usable args _ _ fun options ↦ ?_
  refine judged_csv henvironmental rfl args rfl (fun record ↦ ?_) (fun record ↦ ?_)
    (fun record ↦ makes_inspectSource args record options) (fun record report ↦ ?_)
    (fun record report ↦ ?_) held
  · exact relays_inspectSource args record options
  · exact onChains_bind (onChains_openStream _ _) fun _ ↦
      onChains_awaitChain (Or.inr (Or.inl rfl))
  · exact relays_bind (relays_call _) fun _ ↦ relays_bind (relays_prepareTarget _ _) fun _ ↦
      relays_bind (relays_call _) fun _ ↦ relays_bind (relays_storedAt _ _) fun _ ↦
        relays_bind (relays_call _) fun _ ↦ relays_pure _
  · exact onChains_bind (onChains_updateProgress 80) fun _ ↦
      onChains_bind (onChains_prepareTarget _ _) fun _ ↦
        onChains_bind (onChains_awaitChain (by simp [IsGuarded, Chain.name])) fun _ ↦
          onChains_bind (onChains_storedAt _ _) fun _ ↦
            onChains_bind (onChains_updateProgress 100) fun _ ↦ onChains_finish _

theorem judged_transformCsv (args : ProcessorArgs) (held : Held) :
    Judged env trouble .csvTransform (transformCsv args) 0 held := by
  refine judged_usable args _ _ fun options ↦ ?_
  refine judged_csv henvironmental rfl args rfl (fun record ↦ ?_) (fun record ↦ ?_)
    (fun record ↦ makes_rewriteSource args record options) (fun record result ↦ ?_)
    (fun record result ↦ ?_) held
  · exact relays_rewriteSource args record options
  · exact onChains_rewriteSource (Or.inr (Or.inr rfl)) args record options
  · exact relays_bind (relays_call _) fun _ ↦ relays_pure _
  · exact onChains_bind (onChains_updateProgress 100) fun _ ↦ onChains_finish _

theorem judged_processors (operation : Operation) (args : ProcessorArgs) (held : Held) :
    Judged env trouble operation (processors operation args) 0 held := by
  cases operation with
  | imageResize => exact judged_resizeImage henvironmental args held
  | imageConvert =>
    exact judged_usable args _ _ fun options ↦ judged_edit henvironmental rfl args _ _ _ _ held
  | imageThumbnail =>
    exact judged_usable args _ _ fun options ↦ judged_edit henvironmental rfl args _ _ _ _ held
  | csvValidate => exact judged_validateCsv henvironmental args held
  | csvTransform => exact judged_transformCsv henvironmental args held

end Processors

/-! ### The attempt under the retry policy -/

theorem run_rethrowing {α : Type} (world : Program.World Call Reply Fault Held)
    (label : JobError → JobError) (body : JobTask α) (calls : ℕ) (held : Held) :
    Program.run world (rethrowing label body) calls held =
      { Program.run world body calls held with
        outcome :=
          (Program.run world body calls held).outcome.mapError (Fault.relabel label) } := by
  rw [rethrowing, Program.run_handle]
  cases houtcome : (Program.run world body calls held).outcome with
  | ok result => simp [Program.Ended.handle, houtcome, Except.mapError]
  | error fault => simp [Program.Ended.handle, houtcome, Except.mapError]

theorem runJob_of_payload {runtime : Runtime} {data : Json} {payload : JobPayload}
    (hpayload : JobPayloadSchema.safeParse data = some payload) :
    runJob runtime data = processors payload.operation { runtime with payload := payload } := by
  rw [runJob, hpayload]

/-- Assumes: a payload that parses, and trouble of the environment, which the attempt met. The
attempt leaves the job retryable exactly when the processor hears of the failure and it was not met
inside the `try` block of the operation. -/
theorem staysRetryable_iff {env : Env} {trouble : Trouble} {data : Json} {payload : JobPayload}
    {files : AbsolutePath → Option Bytes}
    (hpayload : JobPayloadSchema.safeParse data = some payload)
    (henvironmental : Environmental trouble)
    (hmet : (attemptWith env trouble data files).state.met = true) :
    StaysRetryable (attemptWith env trouble data files).outcome ↔
      IsHeard trouble ∧ ¬ StrikesGuarded payload.operation trouble := by
  rw [attemptWith, runJobWithRetryPolicy, run_rethrowing, runJob_of_payload hpayload] at hmet ⊢
  have hjudged : Judged env trouble payload.operation
      (processors payload.operation { env.toRuntime with payload := payload }) 0
      { files := files } := judged_processors henvironmental payload.operation _ _
  rcases hjudged with hsame | ⟨fault, last, found, hrun, hspared⟩
  · rw [hsame] at hmet
    exact absurd ((run_world_met env _ 0 _).symm.trans hmet) Bool.false_ne_true
  · rw [hrun, ← hspared]
    cases fault with
    | thrown error => simp [StaysRetryable, Spared, Except.mapError, Fault.relabel]
    | unsettled => simp [StaysRetryable, Spared, Except.mapError, Fault.relabel]

/-- Redis is gone when a thumbnail reports its progress. -/
theorem staysRetryable_redis :
    StaysRetryable (attemptWith (gallery (some picture.toJson) (.ok [4]))
      (.call 3 "connect ECONNREFUSED") thumbnailJob galleryFiles).outcome :=
  (@staysRetryable_iff _ (.call 3 "connect ECONNREFUSED") _ _ _ rfl trivial (by decide)).mpr
    ⟨trivial, by simp [StrikesGuarded, guardedCalls]⟩

/-- There are too many open files when a thumbnail looks for its source: the job is given up, and
without that it completes. -/
theorem not_staysRetryable_openFiles :
    ¬ ∀ (env : Env) (trouble : Trouble) (data : Json) (payload : JobPayload)
      (files : AbsolutePath → Option Bytes),
      JobPayloadSchema.safeParse data = some payload →
      (∃ result, (Program.run env.world (runJobWithRetryPolicy env.toRuntime data) 0
        { files := files }).outcome = .ok result) →
      Environmental trouble → (attemptWith env trouble data files).state.met = true →
        StaysRetryable (attemptWith env trouble data files).outcome := by
  intro h
  obtain ⟨error, hends, hretryable⟩ := h (gallery (some picture.toJson) (.ok [4]))
    (.call 1 "EMFILE: too many open files") thumbnailJob _ galleryFiles rfl ⟨_, rfl⟩ trivial
    (by decide)
  have hgiven : Except.error (.thrown (.unrecoverable
      "Not a readable image: EMFILE: too many open files")) =
        (Except.error (.thrown error) : Except Fault ProcessorResult) := hends
  obtain rfl := Fault.thrown.inj (Except.error.inj hgiven)
  cases hretryable

end FileForge.Jobs.PassingTrouble
