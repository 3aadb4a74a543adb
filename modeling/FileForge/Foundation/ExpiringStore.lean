import Mathlib.Data.Nat.Notation
import Mathlib.Logic.Function.Basic
import Mathlib.Tactic.Common

/-!
# A keyspace with expiring entries

The store that a Redis server keeps for its clients: a map from keys to values in which an entry
may carry the last moment at which it is readable. Times are in milliseconds. A command is given
the moment at which the server runs it, and an entry whose moment has passed is absent for every
command (`live`).

`incr` counts up from an absent key and keeps the expiry of a present one, `expire` sets the expiry
of a present key and does nothing to an absent one, and `setEx` replaces an entry and its expiry.
The frame lemmas (`incr_of_ne`, `expire_of_ne`, `setEx_of_ne`) say that a command on one key leaves
every other key as it was.

The keys and the values are arbitrary types; only `incr` fixes the values to be counts.
-/

set_option autoImplicit false
set_option relaxedAutoImplicit false

namespace FileForge.Foundation.ExpiringStore

/-- A stored value with the last moment at which it is readable, `none` for an entry that never
expires. -/
structure Entry (V : Type*) where
  value : V
  expireAt : Option ℕ
  deriving DecidableEq, Repr

/-- The entry is readable at the moment `now`. -/
def Entry.Alive {V : Type*} (entry : Entry V) (now : ℕ) : Prop :=
  ∀ last ∈ entry.expireAt, now ≤ last

instance {V : Type*} (entry : Entry V) (now : ℕ) : Decidable (entry.Alive now) :=
  inferInstanceAs (Decidable (∀ last ∈ entry.expireAt, now ≤ last))

/-- The stored entries, expired ones included. -/
abbrev Keyspace (K V : Type*) := K → Option (Entry V)

section Commands

variable {K V : Type*}

/-- A keyspace without entries. -/
def empty : Keyspace K V := fun _ ↦ none

/-- The entry a command running at `now` finds under a key. -/
def live (db : Keyspace K V) (now : ℕ) (key : K) : Option (Entry V) :=
  (db key).filter fun entry ↦ decide (entry.Alive now)

/-- `GET`: the value under a key, `none` when the key is absent or has expired. -/
def get (db : Keyspace K V) (now : ℕ) (key : K) : Option V :=
  (live db now key).map Entry.value

variable [DecidableEq K]

/-- `SET key value EX seconds`. -/
def setEx (db : Keyspace K V) (now : ℕ) (key : K) (value : V) (seconds : ℕ) : Keyspace K V :=
  Function.update db key (some ⟨value, some (now + seconds * 1000)⟩)

/-- `EXPIRE key seconds`: the key, when present, is readable for `seconds` more. -/
def expire (db : Keyspace K V) (now : ℕ) (key : K) (seconds : ℕ) : Keyspace K V :=
  match live db now key with
  | none => db
  | some entry => Function.update db key (some ⟨entry.value, some (now + seconds * 1000)⟩)

/-- `INCR key`: the new count and the keyspace that holds it. An absent key starts at one without
an expiry, a present key keeps its expiry. -/
def incr (db : Keyspace K ℕ) (now : ℕ) (key : K) : ℕ × Keyspace K ℕ :=
  match live db now key with
  | none => (1, Function.update db key (some ⟨1, none⟩))
  | some entry =>
    (entry.value + 1, Function.update db key (some ⟨entry.value + 1, entry.expireAt⟩))

end Commands

section Laws

variable {K V : Type*}

theorem live_eq_some_iff {db : Keyspace K V} {now : ℕ} {key : K} {entry : Entry V} :
    live db now key = some entry ↔ db key = some entry ∧ entry.Alive now := by
  simp [live, Option.filter_eq_some_iff]

theorem live_of_none {db : Keyspace K V} {key : K} (now : ℕ) (habsent : db key = none) :
    live db now key = none := by
  simp [live, habsent]

variable [DecidableEq K]

theorem setEx_of_ne (db : Keyspace K V) (now : ℕ) {key other : K} (value : V) (seconds : ℕ)
    (h : other ≠ key) : setEx db now key value seconds other = db other :=
  Function.update_of_ne h _ _

@[simp] theorem setEx_self (db : Keyspace K V) (now : ℕ) (key : K) (value : V) (seconds : ℕ) :
    setEx db now key value seconds key = some ⟨value, some (now + seconds * 1000)⟩ :=
  Function.update_self _ _ _

theorem expire_of_ne (db : Keyspace K V) (now : ℕ) {key other : K} (seconds : ℕ)
    (h : other ≠ key) : expire db now key seconds other = db other := by
  unfold expire
  cases live db now key with
  | none => rfl
  | some entry => exact Function.update_of_ne h _ _

/-- Assumes: a present key. `EXPIRE` keeps its value and moves its last readable moment. -/
theorem expire_self {db : Keyspace K V} {now : ℕ} {key : K} {entry : Entry V} (seconds : ℕ)
    (h : live db now key = some entry) :
    expire db now key seconds key = some ⟨entry.value, some (now + seconds * 1000)⟩ := by
  simp [expire, h]

theorem incr_of_ne (db : Keyspace K ℕ) (now : ℕ) {key other : K} (h : other ≠ key) :
    (incr db now key).2 other = db other := by
  unfold incr
  cases live db now key with
  | none => exact Function.update_of_ne h _ _
  | some entry => exact Function.update_of_ne h _ _

/-- Assumes: an absent key. `INCR` answers one and creates the key without an expiry. -/
theorem incr_of_absent {db : Keyspace K ℕ} {now : ℕ} {key : K} (h : live db now key = none) :
    (incr db now key).1 = 1 ∧ (incr db now key).2 key = some ⟨1, none⟩ := by
  simp [incr, h]

/-- Assumes: a present key. `INCR` answers the successor and keeps the expiry. -/
theorem incr_of_live {db : Keyspace K ℕ} {now : ℕ} {key : K} {entry : Entry ℕ}
    (h : live db now key = some entry) :
    (incr db now key).1 = entry.value + 1 ∧
      (incr db now key).2 key = some ⟨entry.value + 1, entry.expireAt⟩ := by
  simp [incr, h]

end Laws

end FileForge.Foundation.ExpiringStore
