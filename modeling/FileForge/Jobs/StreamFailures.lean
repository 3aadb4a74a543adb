import FileForge.Jobs.Attempts

/-!
# A stage that fails

What becomes of a processor when streams on its way fail, in any order and at any moment of the
chain. The promise of the processor rejects, with nothing left unhandled, exactly when every stage
that failed belongs to the part of its chain that is awaited, and was listened to when it failed
(`attempt_rejects_iff`). The stages that do not belong to it are the sources of the two chains of an
image, in `source.pipe(probe)` and `source.pipe(transform)` (`IsImageSource`). Not listened to are
the sources that are opened before another call is awaited, until it has answered: the source of
`runPipeline`, and that of `transformCsv` while `saveFrom` makes a directory (`early_source`). Such a
failure reaches nobody, and the processor never settles (`unsettled_of_unheard`).
-/

set_option autoImplicit false
set_option relaxedAutoImplicit false

namespace FileForge.Jobs.StreamFailures

open Foundation Foundation.Interaction Foundation.PosixPath Foundation.StreamChain
open Foundation.FileTree (Bytes)
open Shared.Contract Errors JobOptions Processors Attempts
open Worker (ProcessorResult)

/-- The promise of the processor rejects. -/
def Rejects (outcome : Except Fault ProcessorResult) : Prop :=
  ∃ error, outcome = .error (.thrown error)

/-- A processor's attempt in which the streams of a chain take some steps. -/
def attempt (env : Env) (payload : JobPayload) (files : AbsolutePath → Option Bytes)
    (name : ChainName) (actions : List (Action JobError)) :
    Program.Ended Fault ProcessorResult Held :=
  Program.run (env.troubled (.streams name actions))
    (processors payload.operation { env.toRuntime with payload := payload }) 0 { files := files }

/-- The source of a chain of an image, which is joined to the next stage by `pipe` alone. -/
def IsImageSource (name : ChainName) (stage : ℕ) : Prop :=
  (name = .probe ∨ name = .rewriteImage) ∧ stage = 0

/-- The awaiting function hears of all failures: no source of an image is among them, and none came
before the chain was joined. -/
def HearsAll (name : ChainName) (actions : List (Action JobError)) : Prop :=
  Layout.failures (Layout.beforeJoin actions) = [] ∧
    ∀ failure ∈ Layout.failures actions, ¬ IsImageSource name failure.1

/-! ### The failure of a chain -/

theorem piped_le_iff (name : ChainName) (stage : ℕ) :
    name.piped ≤ stage ↔ ¬ IsImageSource name stage := by
  cases name <;> simp [ChainName.piped, IsImageSource, Nat.one_le_iff_ne_zero]

theorem streamFault_ne_unsettled_iff (state : State JobError) :
    streamFault state ≠ .unsettled ↔
      (∃ error, state.promise = some (.error error)) ∧ state.unhandled = [] := by
  obtain ⟨joined, status, promise, unhandled⟩ := state
  rcases promise with _ | value | error <;> cases unhandled <;> simp [streamFault]

theorem failedStreams_eq_some {name : ChainName} {actions : List (Action JobError)}
    {state : State JobError} (h : failedStreams name actions = some state) :
    Layout.failures actions ≠ [] ∧ name.layout.system.run actions = some state := by
  unfold failedStreams at h
  split_ifs at h with hnone
  exact ⟨hnone, h⟩

/-- What fails before a chain is joined is the source of `runPipeline` or that of `transformCsv`. -/
theorem early_source {name : ChainName} {actions : List (Action JobError)} {state : State JobError}
    (hrun : name.layout.system.run actions = some state) {failure : ℕ × JobError}
    (hmem : failure ∈ Layout.failures (Layout.beforeJoin actions)) :
    (name = .rewriteImage ∨ name = .rewriteCsv) ∧ failure.1 = 0 := by
  have hopened : failure.1 < name.opened := Layout.opened_of_early hrun hmem
  cases name <;> simp [ChainName.opened] at hopened ⊢ <;> exact hopened

example : (ChainName.rewriteCsv.layout.system.run
    [.fail 0 (.error "EMFILE: too many open files"), .join]).map streamFault =
      some .unsettled := by decide

/-- The awaiting function hears of the failures exactly when they are all of its own part, and all
come after the chain is joined. -/
theorem settles_iff {name : ChainName} {actions : List (Action JobError)} {state : State JobError}
    (h : failedStreams name actions = some state) :
    streamFault state ≠ .unsettled ↔ HearsAll name actions := by
  obtain ⟨hfails, hrun⟩ := failedStreams_eq_some h
  rw [streamFault_ne_unsettled_iff, Layout.rejects_iff hrun hfails]
  exact and_congr_right fun _ ↦ forall₂_congr fun failure _ ↦ piped_le_iff name failure.1

/-- The streams that struck a call. -/
theorem streams_of_interrupts {env : Env} {name : ChainName} {actions : List (Action JobError)}
    {number : ℕ} {request : Call} {held : Held} {fault : Fault}
    (h : (Trouble.streams name actions).interrupts env number request held = some fault) :
    ∃ chain state, request = .chain chain ∧ chain.name = name ∧
      failedStreams name actions = some state ∧ fault = streamFault state := by
  cases request with
  | chain chain =>
    simp only [Trouble.interrupts] at h
    split_ifs at h with hname
    obtain ⟨state, hstate, hfault⟩ := Option.map_eq_some_iff.mp h
    exact ⟨chain, state, rfl, hname, hstate, hfault.symm⟩
  | _ => simp [Trouble.interrupts] at h

/-! ### The processor -/

section Attempt

variable {env : Env} {payload : JobPayload} {files : AbsolutePath → Option Bytes}
  {name : ChainName} {actions : List (Action JobError)}

/-- Assumes: the attempt met the failing streams. It ends with what the chain makes of them. -/
theorem attempt_of_met (hmet : (attempt env payload files name actions).state.met = true) :
    ∃ state relayed, failedStreams name actions = some state ∧
      SameKind (streamFault state) relayed ∧
      (attempt env payload files name actions).outcome = .error relayed ∧
      (attempt env payload files name actions).state.unhandled = state.unhandled := by
  obtain ⟨number, request, before, fault, relayed, hstruck, hrelay, houtcome, hunhandled⟩ :=
    exists_struck (relays_processors payload.operation _) rfl hmet
  obtain ⟨chain, state, -, -, hstate, rfl⟩ := streams_of_interrupts hstruck
  refine ⟨state, relayed, hstate, hrelay, houtcome, hunhandled.trans ?_⟩
  rw [Trouble.unhandled, hstate]
  rfl

/-- Assumes: the attempt met the failing streams, and a failure was not heard. The promise of the
processor never settles. -/
theorem unsettled_of_unheard
    (hmet : (attempt env payload files name actions).state.met = true)
    (hdeaf : ¬ HearsAll name actions) :
    (attempt env payload files name actions).outcome = .error .unsettled := by
  obtain ⟨state, relayed, hstate, hkind, houtcome, -⟩ := attempt_of_met hmet
  have hunsettled : streamFault state = .unsettled := by
    by_contra hsettles
    exact hdeaf ((settles_iff hstate).mp hsettles)
  rw [houtcome, hkind.mp hunsettled]

/-- Assumes: the attempt met the failing streams. Its promise rejects, with nothing left unhandled,
exactly when none of the stages that failed is the source of an image, and none failed before its
chain was joined. -/
theorem attempt_rejects_iff (hmet : (attempt env payload files name actions).state.met = true) :
    (Rejects (attempt env payload files name actions).outcome ∧
        (attempt env payload files name actions).state.unhandled = []) ↔
      HearsAll name actions := by
  obtain ⟨state, relayed, hstate, hkind, houtcome, hunhandled⟩ := attempt_of_met hmet
  have hrejects : Rejects (attempt env payload files name actions).outcome ↔
      streamFault state ≠ .unsettled := by
    rw [Rejects, houtcome, ne_eq, show streamFault state = .unsettled ↔ _ from hkind]
    cases relayed <;> simp
  rw [hrejects, hunhandled, ← settles_iff hstate, streamFault_ne_unsettled_iff]
  constructor
  · exact And.left
  · exact fun h ↦ ⟨h, h.2⟩

end Attempt

/-! ### A thumbnail whose streams fail -/

def thumbnail : JobPayload where
  fileId := "a"
  operation := .imageThumbnail
  options := []

/-- The picture is read to its end, and then it does not decode. -/
theorem rejects_undecodable :
    Rejects (attempt (gallery (some picture.toJson) (.ok [4])) thumbnail galleryFiles .probe
      [.join, .finish 0, .fail 1 (.error "unsupported image format")]).outcome ∧
    (attempt (gallery (some picture.toJson) (.ok [4])) thumbnail galleryFiles .probe
      [.join, .finish 0, .fail 1 (.error "unsupported image format")]).state.unhandled = [] := by
  refine (attempt_rejects_iff (by decide)).mpr ?_
  simp [HearsAll, Layout.beforeJoin, Layout.isJoin, Layout.failures, IsImageSource]

/-- The disk fails while the picture is read: the promise stays open, and the error is left
unhandled. -/
theorem not_rejects_unreadable :
    ¬ ∀ (env : Env) (payload : JobPayload) (files : AbsolutePath → Option Bytes)
      (name : ChainName) (actions : List (Action JobError)),
      (attempt env payload files name actions).state.met = true →
        Rejects (attempt env payload files name actions).outcome ∧
          (attempt env payload files name actions).state.unhandled = [] := by
  intro h
  have hrejects := h (gallery (some picture.toJson) (.ok [4])) thumbnail galleryFiles .rewriteImage
    [.join, .fail 0 (.error "EIO: i/o error, read")] (by decide)
  exact absurd hrejects.2 (by decide)

end FileForge.Jobs.StreamFailures
