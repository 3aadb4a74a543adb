import FileForge.Foundation.Execution
import Mathlib.Data.Int.Notation
import Mathlib.Data.List.Basic
import Mathlib.Data.Nat.Notation

/-!
# The drop zone

`frontend/src/components/DropZone.tsx`. When a drag moves from one element of the page to another,
the browser dispatches `dragenter` at the new element first and `dragleave` at the old one after it,
and React may render between the two. Both come up to the zone from every element inside it, so the
zone counts them.

`highlight_follows` is about every way a drag can go, drops and further drags included: the zone is
highlighted exactly while the drag is over it, also between two events, and each file that is dropped
or chosen while the zone is enabled is handed on once.
-/

set_option autoImplicit false
set_option relaxedAutoImplicit false

namespace FileForge.Frontend.DropZone

open Foundation.Execution

variable {Element File : Type}

/-! ### The component -/

/-- The state of the component; `onFile` has been called with the files. -/
structure Zone (File : Type) where
  depth : ℤ := 0
  isDragging : Bool := false
  disabled : Bool := false
  handed : List File := []

def Zone.handleDragEnter (zone : Zone File) : Zone File :=
  { zone with depth := zone.depth + 1, isDragging := true }

def Zone.handleDragLeave (zone : Zone File) : Zone File :=
  if zone.depth - 1 ≤ 0 then { zone with depth := 0, isDragging := false }
  else { zone with depth := zone.depth - 1 }

/-- `if (file) onFile(file)` with the first file. -/
def Zone.handOn (zone : Zone File) (files : List File) : Zone File :=
  { zone with handed := zone.handed ++ files.head?.toList }

def Zone.handleDrop (zone : Zone File) (files : List File) : Zone File :=
  let cleared := { zone with depth := 0, isDragging := false }
  if cleared.disabled then cleared else cleared.handOn files

def Zone.handleChoose (zone : Zone File) (files : List File) : Zone File := zone.handOn files

/-! ### The browser -/

/-- The zone, and where the drag is: over an element of the zone or not. -/
structure State (Element File : Type) where
  zone : Zone File := {}
  under : Option Element := none
  /-- The element before was in the zone too, and its `dragleave` is still to come. -/
  leaving : Bool := false

inductive Action (Element File : Type)
  /-- The drag has come over another element, or out of the zone. -/
  | move (target : Option Element)
  /-- `dragleave` at the element before. A drag that is cancelled ends like one that moves out. -/
  | leave
  | drop (files : List File)
  /-- The input, which a disabled zone disables. -/
  | choose (files : List File)
  | disable (disabled : Bool)

variable [DecidableEq Element]

def step (state : State Element File) : Action Element File → Option (State Element File)
  | .move target =>
    if state.leaving = true ∨ target = state.under then none
    else some {
      zone := if target.isSome then state.zone.handleDragEnter else state.zone
      under := target
      leaving := state.under.isSome }
  | .leave =>
    if state.leaving then
      some { state with zone := state.zone.handleDragLeave, leaving := false }
    else none
  | .drop files =>
    if state.leaving = false ∧ state.under.isSome then
      some { state with zone := state.zone.handleDrop files, under := none }
    else none
  | .choose files =>
    if state.zone.disabled then none
    else some { state with zone := state.zone.handleChoose files }
  | .disable disabled => some { state with zone := { state.zone with disabled := disabled } }

def page : System (State Element File) (Action Element File) where
  start := {}
  step := step

/-! ### What is shown and handed on -/

/-- What the user has done to the files: the first file of each drop on an enabled zone and of each
choice, after the zone was disabled or not. -/
def intent (seen : Bool × List File) : Action Element File → Bool × List File
  | .drop files => (seen.1, seen.2 ++ if seen.1 then [] else files.head?.toList)
  | .choose files => (seen.1, seen.2 ++ files.head?.toList)
  | .disable disabled => (disabled, seen.2)
  | .move _ | .leave => seen

def wanted (actions : List (Action Element File)) : List File :=
  (actions.foldl intent (false, [])).2

/-- The elements of the zone that have been entered and not left: the one under the drag, and the
one before it. -/
def State.entered (state : State Element File) : ℕ := state.under.toList.length + state.leaving.toNat

/-- The zone has counted them. -/
structure Counted (state : State Element File) : Prop where
  depth : state.zone.depth = state.entered
  isDragging : state.zone.isDragging = decide (0 < state.entered)

variable {state after : State Element File} {action : Action Element File}

omit [DecidableEq Element] in
/-- Leaving one of the elements. -/
theorem handleDragLeave_eq (zone : Zone File) (rest : ℕ) (h : zone.depth = rest + 1)
    (hdragging : zone.isDragging = true) :
    zone.handleDragLeave = { zone with depth := rest, isDragging := decide (0 < rest) } := by
  rw [Zone.handleDragLeave, h]
  split_ifs with hzero
  · have hnone : rest = 0 := by omega
    rw [hnone]
    rfl
  · have hsome : 0 < rest := by omega
    rw [decide_eq_true hsome, ← hdragging]
    simp

theorem Counted.step (h : Counted state) (hstep : step state action = some after) :
    Counted after ∧ (after.zone.disabled, after.zone.handed) =
      intent (state.zone.disabled, state.zone.handed) action := by
  obtain ⟨hdepth, hdragging⟩ := h
  cases action with
  | move target =>
    obtain ⟨hmoves, hsome⟩ := Option.ite_none_left_eq_some.mp hstep
    obtain rfl := Option.some.inj hsome
    rw [not_or, Bool.not_eq_true] at hmoves
    obtain ⟨hsettled, hmoved⟩ := hmoves
    rw [State.entered, hsettled] at hdepth hdragging
    cases target with
    | some element =>
      cases hover : state.under with
      | none =>
        rw [hover] at hdepth hdragging
        exact ⟨⟨by simp [State.entered, Zone.handleDragEnter, hdepth], rfl⟩, rfl⟩
      | some before =>
        rw [hover] at hdepth hdragging
        exact ⟨⟨by simp [State.entered, Zone.handleDragEnter, hdepth], rfl⟩, rfl⟩
    | none =>
      cases hover : state.under with
      | none => exact absurd hover.symm hmoved
      | some before =>
        rw [hover] at hdepth hdragging
        exact ⟨⟨hdepth, hdragging⟩, rfl⟩
  | leave =>
    obtain ⟨hleaving, hsome⟩ := Option.ite_none_right_eq_some.mp hstep
    obtain rfl := Option.some.inj hsome
    have hentered : state.entered = state.under.toList.length + 1 := by
      rw [State.entered, hleaving]
      rfl
    rw [hentered] at hdepth hdragging
    rw [handleDragLeave_eq state.zone state.under.toList.length hdepth (by simpa using hdragging)]
    exact ⟨⟨rfl, rfl⟩, rfl⟩
  | drop files =>
    obtain ⟨⟨hsettled, -⟩, hsome⟩ := Option.ite_none_right_eq_some.mp hstep
    obtain rfl := Option.some.inj hsome
    rw [Zone.handleDrop]
    cases hdisabled : state.zone.disabled with
    | true =>
      refine ⟨⟨by simp [State.entered, hsettled], by simp [State.entered, hsettled]⟩, ?_⟩
      simp [intent]
    | false =>
      refine ⟨⟨by simp [State.entered, hsettled, Zone.handOn],
        by simp [State.entered, hsettled, Zone.handOn]⟩, ?_⟩
      simp [intent, Zone.handOn]
  | choose files =>
    obtain ⟨-, hsome⟩ := Option.ite_none_left_eq_some.mp hstep
    obtain rfl := Option.some.inj hsome
    exact ⟨⟨hdepth, hdragging⟩, rfl⟩
  | disable disabled =>
    obtain rfl := Option.some.inj hstep
    exact ⟨⟨hdepth, hdragging⟩, rfl⟩

/-- In every run: the zone is highlighted when the drag is over it, and also between the two events
of a move inside it; between moves it is highlighted only then. The files that were handed on are
those that the user meant, each once and in their order. -/
theorem highlight_follows {actions : List (Action Element File)} {state : State Element File}
    (hrun : page.run actions = some state) :
    (state.under.isSome → state.zone.isDragging = true) ∧
      (state.leaving = false → (state.zone.isDragging = true ↔ state.under.isSome)) ∧
      state.zone.handed = wanted actions := by
  have hall : Counted state ∧ (state.zone.disabled, state.zone.handed) =
      actions.foldl intent (false, []) := by
    refine System.run_induction (motive := fun actions (state : State Element File) ↦
      Counted state ∧ (state.zone.disabled, state.zone.handed) =
        actions.foldl intent (false, [])) ⟨⟨rfl, rfl⟩, rfl⟩ ?_ hrun
    rintro past before action after - ⟨hcounted, hhanded⟩ hstep
    obtain ⟨hafter, hintent⟩ := hcounted.step hstep
    rw [List.foldl_append, ← hhanded]
    exact ⟨hafter, hintent⟩
  obtain ⟨⟨-, hdragging⟩, hhanded⟩ := hall
  refine ⟨fun hover ↦ ?_, fun hsettled ↦ ?_, congrArg Prod.snd hhanded⟩
  · obtain ⟨element, hover⟩ := Option.isSome_iff_exists.mp hover
    rw [hdragging, State.entered, hover, decide_eq_true_eq]
    exact Nat.add_pos_left Nat.one_pos _
  · rw [hdragging, State.entered, hsettled]
    cases state.under <;> simp

/-- A drag over the two paragraphs of the zone, and a drop. -/
theorem highlight_follows_drop :
    ∃ state, (page : System (State Bool ℕ) (Action Bool ℕ)).run
        [.move (some false), .move (some true), .leave, .drop [7]] = some state ∧
      (state.zone.isDragging = true ↔ state.under.isSome) ∧ state.zone.handed = [7] := by
  have hseen : ((page : System (State Bool ℕ) (Action Bool ℕ)).run
      [.move (some false), .move (some true), .leave, .drop [7]]).map State.leaving =
        some false := by
    decide
  obtain ⟨state, hrun, hsettled⟩ := Option.map_eq_some_iff.mp hseen
  obtain ⟨-, hhighlight, hhanded⟩ := highlight_follows hrun
  exact ⟨state, hrun, hhighlight hsettled, hhanded⟩

end FileForge.Frontend.DropZone
