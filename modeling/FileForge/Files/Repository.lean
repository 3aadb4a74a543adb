import FileForge.Foundation.ExpiringStore
import FileForge.Foundation.JsonValue
import Mathlib.Algebra.Group.Nat.Defs
import Mathlib.Algebra.Order.Ring.Unbundled.Rat

/-!
# Records of uploaded files

`src/files/repository.ts`: a record is kept in Redis as JSON under the key of its id, for
`DEFAULT_TTL_SECONDS`. What is stored under a key is a text; a text that is not JSON is `none`, and
reading it throws. `get_save` is the round trip: until its last readable moment a saved record is
read back as it was.
-/

set_option autoImplicit false
set_option relaxedAutoImplicit false

namespace FileForge.Files.Repository

open Foundation.ExpiringStore Foundation.JsonValue

/-- How long an upload record survives: 24 hours. -/
def defaultTtlSeconds : ℕ := 24 * 60 * 60

def keyPrefix : String := "file:"

/-- The greatest safe integer, which bounds `z.number().int()`. -/
def maxSafeInteger : ℕ := 2 ^ 53 - 1

/-- `FileRecord`. -/
structure FileRecord where
  id : String
  storageKey : String
  originalName : String
  mimeType : String
  size : ℕ
  uploadedAt : String
  deriving DecidableEq, Repr

/-- The record as it is written. -/
def FileRecord.toJson (record : FileRecord) : Json :=
  .object [
    ("id", .string record.id),
    ("storageKey", .string record.storageKey),
    ("originalName", .string record.originalName),
    ("mimeType", .string record.mimeType),
    ("size", .number record.size),
    ("uploadedAt", .string record.uploadedAt)]

/-- `z.number().int().nonnegative()`. -/
def asSize (value : Json) : Option ℕ := do
  let number ← value.asNumber
  if number.den = 1 ∧ 0 ≤ number.num ∧ number.num.toNat ≤ maxSafeInteger then
    some number.num.toNat
  else none

/-- `FileRecordSchema.safeParse`. -/
def FileRecordSchema.safeParse (value : Json) : Option FileRecord := do
  let id ← (← value.get "id").asString
  let storageKey ← (← value.get "storageKey").asString
  let originalName ← (← value.get "originalName").asString
  let mimeType ← (← value.get "mimeType").asString
  let size ← asSize (← value.get "size")
  let uploadedAt ← (← value.get "uploadedAt").asString
  return {
    id := id, storageKey := storageKey, originalName := originalName, mimeType := mimeType
    size := size, uploadedAt := uploadedAt }

/-- The stored texts: what `JSON.parse` makes of each, `none` when it throws. -/
abbrev Records := Keyspace String (Option Json)

def keyFor (id : String) : String := keyPrefix ++ id

/-- `save`, at a moment in milliseconds. -/
def save (db : Records) (now : ℕ) (record : FileRecord) : Records :=
  setEx db now (keyFor record.id) (some record.toJson) defaultTtlSeconds

/-- `get`: the record, `null` when it is unknown, has expired or is not a record, or the exception
of `JSON.parse`. -/
def get (db : Records) (now : ℕ) (id : String) : Except String (Option FileRecord) :=
  match Foundation.ExpiringStore.get db now (keyFor id) with
  | none => .ok none
  | some none => .error "SyntaxError"
  | some (some value) => .ok (FileRecordSchema.safeParse value)

theorem keyFor_injective {id other : String} (h : keyFor id = keyFor other) : id = other := by
  have htext : keyPrefix.toList ++ id.toList = keyPrefix.toList ++ other.toList := by
    rw [← String.toList_append, ← String.toList_append]
    exact congrArg String.toList h
  exact String.toList_injective (List.append_cancel_left htext)

theorem asSize_number {size : ℕ} (h : size ≤ maxSafeInteger) :
    asSize (.number size) = some size := by
  have hguard : (size : ℚ).den = 1 ∧ 0 ≤ (size : ℚ).num ∧
      (size : ℚ).num.toNat ≤ maxSafeInteger := by
    rw [Rat.num_natCast, Rat.den_natCast]
    exact ⟨rfl, Int.natCast_nonneg size, h⟩
  show (if _ then some (size : ℚ).num.toNat else none) = _
  rw [if_pos hguard, Rat.num_natCast]
  rfl

/-- A record of a size that the schema accepts is read back as it was written. -/
theorem safeParse_toJson {record : FileRecord} (h : record.size ≤ maxSafeInteger) :
    FileRecordSchema.safeParse record.toJson = some record := by
  have hsize : asSize (.number record.size) = some record.size := asSize_number h
  simp [FileRecordSchema.safeParse, FileRecord.toJson, Json.get, List.lookup_cons, Json.asString,
    hsize]

/-- A record that is read has been stored under its key and is still readable. -/
theorem get_eq_some {db : Records} {now : ℕ} {id : String} {record : FileRecord}
    (h : get db now id = .ok (some record)) :
    ∃ entry value, db (keyFor id) = some entry ∧ entry.Alive now ∧ entry.value = some value ∧
      FileRecordSchema.safeParse value = some record := by
  unfold get at h
  split at h
  · cases h
  · cases h
  · rename_i value hvalue
    obtain ⟨entry, hlive, hentry⟩ := Option.map_eq_some_iff.mp hvalue
    obtain ⟨hstored, halive⟩ := live_eq_some_iff.mp hlive
    exact ⟨entry, value, hstored, halive, hentry, Except.ok.inj h⟩

/-- Until its last readable moment a saved record is read back. -/
theorem get_save (db : Records) {savedAt now : ℕ} {record : FileRecord}
    (hsize : record.size ≤ maxSafeInteger) (hnow : now ≤ savedAt + defaultTtlSeconds * 1000) :
    get (save db savedAt record) now record.id = .ok (some record) := by
  have hstored : save db savedAt record (keyFor record.id) =
      some ⟨some record.toJson, some (savedAt + defaultTtlSeconds * 1000)⟩ := setEx_self _ _ _ _ _
  have hlive : live (save db savedAt record) now (keyFor record.id) =
      some ⟨some record.toJson, some (savedAt + defaultTtlSeconds * 1000)⟩ := by
    refine live_eq_some_iff.mpr ⟨hstored, ?_⟩
    intro last hlast
    obtain rfl := Option.some.inj hlast
    exact hnow
  rw [get, Foundation.ExpiringStore.get, hlive]
  show Except.ok (FileRecordSchema.safeParse record.toJson) = _
  rw [safeParse_toJson hsize]

end FileForge.Files.Repository
