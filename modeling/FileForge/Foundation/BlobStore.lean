import Mathlib.Data.Nat.Notation
import Mathlib.Logic.Function.Basic
import Mathlib.Tactic.Common

/-!
# A store of blobs

What a store under names owes its callers, whatever it keeps the blobs in. `serve` is the store in
which nothing goes wrong: it is a map from keys to blobs. `Fails` is what else may become of a
request when something below the store goes wrong: it is refused and changes nothing, but a write
may have got half way, and a question whether a key is there may be answered with no. A source that
fails is a failing write, and what it has delivered stays.

A run is a list of events: requests with their answers, and blobs that are lost to others (`Runs`).
`Runs.untouched` is the frame rule, over any number of requests for other keys, failing ones
included; `Step.stored` and `Step.fetched` are what a writer and a reader get from an answer.
-/

set_option autoImplicit false
set_option relaxedAutoImplicit false

namespace FileForge.Foundation.BlobStore

variable {Key Byte Fault : Type*}

/-- What a store holds. -/
abbrev Blobs (Key Byte : Type*) := Key → Option (List Byte)

/-- A request. A source is what it delivers, and the fault it ends with when it fails. -/
inductive Request (Key Byte Fault : Type*)
  | put (key : Key) (bytes : List Byte) (failure : Option Fault)
  | fetch (key : Key)
  | has (key : Key)
  | measure (key : Key)
  | drop (key : Key)

inductive Reply (Byte : Type*)
  | stored (size : ℕ)
  | fetched (bytes : List Byte)
  | found (there : Bool)
  | measured (size : ℕ)
  | dropped

/-- The key that a request writes. -/
def Request.target : Request Key Byte Fault → Option Key
  | .put key _ _ | .drop key => some key
  | _ => none

/-- Something happens to a store. A request is troubled when something has gone wrong below the
store while it was served. -/
inductive Event (Key Byte Fault : Type*)
  | asked (request : Request Key Byte Fault) (answer : Except Fault (Reply Byte)) (troubled : Prop)
  | lost (gone : Key → Bool)

/-- The event may change what a key holds. -/
def Event.Touches (key : Key) : Event Key Byte Fault → Prop
  | .asked request _ _ => key ∈ request.target
  | .lost gone => gone key = true

section Spec

variable [DecidableEq Key] (missing : Fault)

/-- A store in which nothing goes wrong. -/
def serve (blobs : Blobs Key Byte) :
    Request Key Byte Fault → Except Fault (Reply Byte) × Blobs Key Byte
  | .put key bytes none => (.ok (.stored bytes.length), Function.update blobs key (some bytes))
  | .put key bytes (some fault) => (.error fault, Function.update blobs key (some bytes))
  | .fetch key => (match blobs key with
    | some bytes => .ok (.fetched bytes)
    | none => .error missing, blobs)
  | .has key => (.ok (.found (blobs key).isSome), blobs)
  | .measure key => (match blobs key with
    | some bytes => .ok (.measured bytes.length)
    | none => .error missing, blobs)
  | .drop key => (.ok .dropped, Function.update blobs key none)

/-- What a store in trouble may do with a request. -/
inductive Fails (blobs : Blobs Key Byte) :
    Request Key Byte Fault → Except Fault (Reply Byte) → Blobs Key Byte → Prop
  | refused {request : Request Key Byte Fault} (h : ∀ key, request ≠ .has key) (fault : Fault) :
      Fails blobs request (.error fault) blobs
  | broken (key : Key) (bytes : List Byte) (failure : Option Fault) (fault : Fault) (count : ℕ) :
      Fails blobs (.put key bytes failure) (.error fault)
        (Function.update blobs key (some (bytes.take count)))
  | denied (key : Key) : Fails blobs (.has key) (.ok (.found false)) blobs

/-- One event. -/
inductive Step (blobs : Blobs Key Byte) : Event Key Byte Fault → Blobs Key Byte → Prop
  | served (request : Request Key Byte Fault) (troubled : Prop) :
      Step blobs (.asked request (serve missing blobs request).1 troubled)
        (serve missing blobs request).2
  | failed {request : Request Key Byte Fault} {answer : Except Fault (Reply Byte)}
      {troubled : Prop} {after : Blobs Key Byte} (h : Fails blobs request answer after)
      (htroubled : troubled) : Step blobs (.asked request answer troubled) after
  | lost (gone : Key → Bool) :
      Step blobs (.lost gone) fun key ↦ if gone key then none else blobs key

/-- A run from one state of the store to another. -/
inductive Runs : Blobs Key Byte → List (Event Key Byte Fault) → Blobs Key Byte → Prop
  | done (blobs : Blobs Key Byte) : Runs blobs [] blobs
  | cons {blobs between after : Blobs Key Byte} {event : Event Key Byte Fault}
      {later : List (Event Key Byte Fault)} (hstep : Step missing blobs event between)
      (h : Runs between later after) : Runs blobs (event :: later) after

end Spec

/-! ### Runs -/

section Runs

variable [DecidableEq Key] {missing : Fault} {blobs after : Blobs Key Byte} {key : Key}

/-- What a request does not write, it leaves. -/
theorem serve_untouched {request : Request Key Byte Fault} (h : key ∉ request.target) :
    (serve missing blobs request).2 key = blobs key := by
  cases request with
  | put other bytes failure =>
    have hne : key ≠ other := fun heq ↦ h (Option.mem_some_iff.mpr heq.symm)
    cases failure <;> exact Function.update_of_ne hne _ _
  | fetch other => rfl
  | has other => rfl
  | measure other => rfl
  | drop other =>
    have hne : key ≠ other := fun heq ↦ h (Option.mem_some_iff.mpr heq.symm)
    exact Function.update_of_ne hne _ _

/-- What a store does in which nothing goes wrong, it may do at any time. -/
theorem step_of_serve {request : Request Key Byte Fault} {answer : Except Fault (Reply Byte)}
    (h : serve missing blobs request = (answer, after)) (troubled : Prop) :
    Step missing blobs (.asked request answer troubled) after := by
  have hserved := @Step.served Key Byte Fault _ missing blobs request troubled
  rwa [h] at hserved

theorem Fails.untouched {request : Request Key Byte Fault} {answer : Except Fault (Reply Byte)}
    (h : Fails blobs request answer after) (huntouched : key ∉ request.target) :
    after key = blobs key := by
  cases h with
  | refused hask fault => rfl
  | broken other bytes failure fault count =>
    have hne : key ≠ other := fun heq ↦ huntouched (Option.mem_some_iff.mpr heq.symm)
    exact Function.update_of_ne hne _ _
  | denied other => rfl

theorem Step.untouched {event : Event Key Byte Fault} (h : Step missing blobs event after)
    (huntouched : ¬ event.Touches key) : after key = blobs key := by
  cases h with
  | served request troubled => exact serve_untouched huntouched
  | failed hfails htroubled => exact hfails.untouched huntouched
  | lost gone => exact if_neg huntouched

theorem runs_cons_iff {event : Event Key Byte Fault} {later : List (Event Key Byte Fault)} :
    Runs missing blobs (event :: later) after ↔
      ∃ between, Step missing blobs event between ∧ Runs missing between later after := by
  constructor
  · rintro (_ | ⟨hstep, h⟩)
    exact ⟨_, hstep, h⟩
  · rintro ⟨between, hstep, h⟩
    exact .cons hstep h

/-- A run can be cut in two. -/
theorem runs_append_iff {past later : List (Event Key Byte Fault)} :
    Runs missing blobs (past ++ later) after ↔
      ∃ between, Runs missing blobs past between ∧ Runs missing between later after := by
  induction past generalizing blobs with
  | nil =>
    constructor
    · exact fun h ↦ ⟨blobs, .done blobs, h⟩
    · rintro ⟨between, hdone, h⟩
      cases hdone
      exact h
  | cons event past ih =>
    rw [List.cons_append, runs_cons_iff]
    constructor
    · rintro ⟨next, hstep, hrest⟩
      obtain ⟨between, hpast, hlater⟩ := ih.mp hrest
      exact ⟨between, .cons hstep hpast, hlater⟩
    · rintro ⟨between, hpast, hlater⟩
      obtain ⟨next, hstep, hrest⟩ := runs_cons_iff.mp hpast
      exact ⟨next, hstep, ih.mpr ⟨between, hrest, hlater⟩⟩

/-- One more event. -/
theorem Runs.concat {past : List (Event Key Byte Fault)} {event : Event Key Byte Fault}
    {between : Blobs Key Byte} (h : Runs missing blobs past between)
    (hstep : Step missing between event after) : Runs missing blobs (past ++ [event]) after :=
  runs_append_iff.mpr ⟨between, h, .cons hstep (.done after)⟩

/-- The frame rule of a run. -/
theorem Runs.untouched {events : List (Event Key Byte Fault)} (h : Runs missing blobs events after)
    (huntouched : ∀ event ∈ events, ¬ event.Touches key) : after key = blobs key := by
  induction h with
  | done blobs => rfl
  | cons hstep _ ih =>
    rw [ih fun event hevent ↦ huntouched event (List.mem_cons_of_mem _ hevent)]
    exact hstep.untouched (huntouched _ List.mem_cons_self)

/-- A write that was answered has stored everything, and says how much. -/
theorem Step.stored {bytes : List Byte} {failure : Option Fault} {reply : Reply Byte}
    {troubled : Prop} (h : Step missing blobs (.asked (.put key bytes failure) (.ok reply) troubled)
      after) : reply = .stored bytes.length ∧ after key = some bytes := by
  generalize hanswer : Except.ok reply = answer at h
  cases h with
  | served request troubled =>
    cases failure with
    | none => exact ⟨Except.ok.inj hanswer, Function.update_self ..⟩
    | some fault => cases hanswer
  | failed hfails htroubled => cases hfails <;> cases hanswer

/-- What a reader is answered about a key that holds a blob. -/
theorem Step.fetched {bytes : List Byte} {answer : Except Fault (Reply Byte)} {troubled : Prop}
    (h : Step missing blobs (.asked (.fetch key) answer troubled) after)
    (hholds : blobs key = some bytes) :
    answer = .ok (.fetched bytes) ∨ troubled ∧ ∃ fault, answer = .error fault := by
  cases h with
  | served request troubled =>
    left
    simp only [serve, hholds]
  | failed hfails htroubled =>
    cases hfails with
    | refused hask fault => exact Or.inr ⟨htroubled, fault, rfl⟩

end Runs

end FileForge.Foundation.BlobStore
