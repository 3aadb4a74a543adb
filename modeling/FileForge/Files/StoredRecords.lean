import FileForge.Files.Repository
import FileForge.Foundation.JsonReader

/-!
# Records as the texts that are stored

`Repository` takes what is stored under a key for a value that has been parsed. Here it is the text
itself: `save` writes what `JSON.stringify` makes of a record, and `get` gives the text to
`JSON.parse` and its value to the schema. `readings` connects the two.

A record that the schema accepts is read back until its time to live ends. What else may stand under
a key is read as a record or as none, or `get` throws: `saved_and_read` says that it throws exactly
for a text that is not JSON.
-/

set_option autoImplicit false
set_option relaxedAutoImplicit false

namespace FileForge.Files.StoredRecords

open Foundation.ExpiringStore Foundation.JsonValue Foundation.JsonText Foundation.JsonReader
open Repository

/-! ### The repository -/

/-- The stored texts. -/
abbrev Texts := Keyspace String String

/-- `FileRepository.save`, at a moment in milliseconds. -/
def save (ttlSeconds : ℕ) (db : Texts) (now : ℕ) (record : FileRecord) : Texts :=
  setEx db now (keyFor record.id) (stringify record.toJson) ttlSeconds

/-- `FileRecordSchema.safeParse(JSON.parse(raw))`. -/
def recordOf (raw : String) : Except String (Option FileRecord) :=
  match parse raw with
  | none => .error "SyntaxError"
  | some value => .ok (FileRecordSchema.safeParse value)

/-- `FileRepository.get`. -/
def get (db : Texts) (now : ℕ) (id : String) : Except String (Option FileRecord) :=
  match Foundation.ExpiringStore.get db now (keyFor id) with
  | none => .ok none
  | some raw => recordOf raw

/-- The schema accepts the record as it is. -/
def IsValid (record : FileRecord) : Prop :=
  FileRecordSchema.safeParse record.toJson = some record

instance : DecidablePred IsValid := fun _ ↦ inferInstanceAs (Decidable (_ = _))

/-! ### What the schema accepts -/

theorem asSize_le {value : Json} {size : ℕ} (h : asSize value = some size) :
    size ≤ maxSafeInteger := by
  obtain ⟨number, -, hsize⟩ := Option.bind_eq_some_iff.mp h
  split_ifs at hsize with hrange
  rw [← Option.some.inj hsize]
  exact hrange.2.2

theorem size_of_safeParse {value : Json} {record : FileRecord}
    (h : FileRecordSchema.safeParse value = some record) : record.size ≤ maxSafeInteger := by
  simp only [FileRecordSchema.safeParse, bind, pure, Option.bind_eq_some_iff] at h
  obtain ⟨_, -, _, -, _, -, _, -, _, -, _, -, _, -, _, -, _, -, size, hsize, _, -, _, -, hrecord⟩ :=
    h
  rw [← Option.some.inj hrecord]
  exact asSize_le hsize

/-- The size is all that the schema restricts. -/
theorem isValid_iff (record : FileRecord) : IsValid record ↔ record.size ≤ maxSafeInteger :=
  ⟨size_of_safeParse, safeParse_toJson⟩

theorem isValid_of_safeParse {value : Json} {record : FileRecord}
    (h : FileRecordSchema.safeParse value = some record) : IsValid record :=
  (isValid_iff record).mpr (size_of_safeParse h)

/-- A record that the schema accepts is written as a text that reads back. -/
theorem readable_toJson {record : FileRecord} (h : IsValid record) : Readable record.toJson := by
  have hsize : |((record.size : ℤ))| ≤ 2 ^ 53 := by
    have hmax := (isValid_iff record).mp h
    rw [maxSafeInteger] at hmax
    rw [abs_of_nonneg (Int.natCast_nonneg _)]
    omega
  have hnumber : Foundation.Binary64.Representable (record.size : ℚ) :=
    Foundation.Binary64.representable_intCast hsize
  refine .object ?_ ?_
  · have hnames : ["id", "storageKey", "originalName", "mimeType", "size", "uploadedAt"].Nodup := by
      decide
    exact hnames
  simp only [List.forall_mem_cons, List.not_mem_nil, false_imp_iff, implies_true, and_true]
  exact ⟨.string _, .string _, .string _, .string _, .number hnumber, .string _⟩

/-! ### The parsed values -/

/-- What `JSON.parse` makes of the stored texts. -/
def readings (db : Texts) : Records := fun key ↦
  (db key).map fun entry ↦ ⟨parse entry.value, entry.expireAt⟩

theorem get_readings (db : Texts) (now : ℕ) (key : String) :
    Foundation.ExpiringStore.get (readings db) now key =
      (Foundation.ExpiringStore.get db now key).map parse := by
  have hlive : live (readings db) now key =
      (live db now key).map fun entry ↦ ⟨parse entry.value, entry.expireAt⟩ :=
    Option.filter_map
  rw [Foundation.ExpiringStore.get, Foundation.ExpiringStore.get, hlive, Option.map_map,
    Option.map_map]
  rfl

theorem recordOf_of_none {raw : String} (h : parse raw = none) :
    recordOf raw = .error "SyntaxError" := by
  rw [recordOf, h]

theorem recordOf_of_some {raw : String} {value : Json} (h : parse raw = some value) :
    recordOf raw = .ok (FileRecordSchema.safeParse value) := by
  rw [recordOf, h]

/-- Reading the text is reading the parsed value. -/
theorem get_eq (db : Texts) (now : ℕ) (id : String) :
    get db now id = Repository.get (readings db) now id := by
  rw [get, Repository.get, get_readings]
  cases Foundation.ExpiringStore.get db now (keyFor id) with
  | none => rfl
  | some raw =>
    rw [Option.map_some]
    cases hparse : parse raw with
    | none => exact recordOf_of_none hparse
    | some value => exact recordOf_of_some hparse

/-- Assumes: a record that the schema accepts. Saving its text is saving its value. -/
theorem readings_save (db : Texts) (now : ℕ) {record : FileRecord} (h : IsValid record) :
    readings (save defaultTtlSeconds db now record) =
      Repository.save (readings db) now record := by
  funext key
  by_cases hkey : key = keyFor record.id
  · rw [hkey, readings, save, Repository.save, setEx_self, setEx_self, Option.map_some,
      parse_stringify (readable_toJson h)]
  · rw [readings, save, Repository.save, setEx_of_ne _ _ _ _ hkey, setEx_of_ne _ _ _ _ hkey,
      readings]

/-! ### Reading back -/

/-- Until its time to live ends, a saved record is read as it was, whatever has become of other
keys. -/
theorem get_of_saved {ttlSeconds savedAt now : ℕ} {before db : Texts} {record : FileRecord}
    (hvalid : IsValid record) (hnow : now ≤ savedAt + ttlSeconds * 1000)
    (hkept : db (keyFor record.id) =
      save ttlSeconds before savedAt record (keyFor record.id)) :
    get db now record.id = .ok (some record) := by
  have hentry : db (keyFor record.id) =
      some ⟨stringify record.toJson, some (savedAt + ttlSeconds * 1000)⟩ := by
    rw [hkept]
    exact setEx_self _ _ _ _ _
  have hlive : live db now (keyFor record.id) =
      some ⟨stringify record.toJson, some (savedAt + ttlSeconds * 1000)⟩ := by
    refine live_eq_some_iff.mpr ⟨hentry, fun last hlast ↦ ?_⟩
    rw [← Option.some.inj hlast]
    exact hnow
  rw [get, Foundation.ExpiringStore.get, hlive, Option.map_some]
  have hread : recordOf (stringify record.toJson) =
      .ok (FileRecordSchema.safeParse record.toJson) :=
    recordOf_of_some (parse_stringify (readable_toJson hvalid))
  rw [hvalid] at hread
  exact hread

/-- `get` answers with a record that the schema accepts or with none. -/
def ReadsRecordOrNone (db : Texts) (now : ℕ) (id : String) : Prop :=
  ∃ found, get db now id = .ok found ∧ ∀ record ∈ found, IsValid record

/-- `get` does so exactly when the text that stands under the key, if any, is JSON. -/
theorem readsRecordOrNone_iff (db : Texts) (now : ℕ) (id : String) :
    ReadsRecordOrNone db now id ↔
      ∀ raw ∈ Foundation.ExpiringStore.get db now (keyFor id), (parse raw).isSome = true := by
  rw [ReadsRecordOrNone, get]
  cases Foundation.ExpiringStore.get db now (keyFor id) with
  | none => exact iff_of_true ⟨none, rfl, nofun⟩ nofun
  | some raw =>
    show (∃ found, recordOf raw = .ok found ∧ _) ↔ _
    cases hparse : parse raw with
    | none =>
      rw [recordOf_of_none hparse]
      refine iff_of_false (fun ⟨found, hfound, _⟩ ↦ nomatch hfound) fun hall ↦ ?_
      have hsome := hall raw rfl
      rw [hparse] at hsome
      cases hsome
    | some value =>
      rw [recordOf_of_some hparse]
      refine iff_of_true ⟨_, rfl, fun record hrecord ↦ isValid_of_safeParse hrecord⟩ ?_
      intro other hother
      rw [← Option.some.inj hother, hparse]
      rfl

/-- Every record that the schema accepts is read back, and reading gives a record or none exactly
where JSON is stored. -/
theorem saved_and_read (ttlSeconds : ℕ) (db : Texts) (now : ℕ) (id : String) :
    (∀ (savedAt : ℕ) (before : Texts) (record : FileRecord), IsValid record → record.id = id →
      now ≤ savedAt + ttlSeconds * 1000 →
      db (keyFor id) = save ttlSeconds before savedAt record (keyFor id) →
        get db now id = .ok (some record)) ∧
      (ReadsRecordOrNone db now id ↔
        ∀ raw ∈ Foundation.ExpiringStore.get db now (keyFor id), (parse raw).isSome = true) := by
  refine ⟨?_, readsRecordOrNone_iff db now id⟩
  rintro savedAt before record hvalid rfl hnow hkept
  exact get_of_saved hvalid hnow hkept

def cafeRecord : FileRecord where
  id := "r"
  storageKey := "uploads/r.csv"
  originalName := "Q3 \"café\".csv"
  mimeType := "text/csv"
  size := 9007199254740991
  uploadedAt := "2024-01-01T00:00:00.000Z"

/-- The record is read in its last millisecond, beside a text that is no JSON. -/
theorem saved_and_read_cafe :
    get (Function.update (save 60 empty 1000 cafeRecord) "file:s" (some ⟨"\x7b", none⟩)) 61000 "r" =
        .ok (some cafeRecord) ∧
      ReadsRecordOrNone
        (Function.update (save 60 empty 1000 cafeRecord) "file:s" (some ⟨"\x7b", none⟩)) 61000
        "r" := by
  obtain ⟨hread, hiff⟩ := saved_and_read 60
    (Function.update (save 60 empty 1000 cafeRecord) "file:s" (some ⟨"\x7b", none⟩)) 61000 "r"
  have hvalid : IsValid cafeRecord := (isValid_iff cafeRecord).mpr (by decide)
  have hother : keyFor "r" ≠ "file:s" := by decide
  refine ⟨hread 1000 empty cafeRecord hvalid rfl (by decide) (Function.update_of_ne hother _ _),
    hiff.mpr fun raw hraw ↦ ?_⟩
  have hlive : Foundation.ExpiringStore.get (Function.update (save 60 empty 1000 cafeRecord)
      "file:s" (some ⟨"\x7b", none⟩)) 61000 (keyFor "r") = some (stringify cafeRecord.toJson) := by
    decide +kernel
  obtain rfl := Option.some.inj (hlive.symm.trans hraw)
  rw [parse_stringify (readable_toJson hvalid)]
  rfl

/-- A text that was cut off is not read as none. -/
theorem not_forall_readsRecordOrNone :
    ¬ ∀ (db : Texts) (now : ℕ) (id : String), ReadsRecordOrNone db now id := by
  intro h
  have hcut := h (fun _ ↦ some ⟨"\x7b\"id\":", none⟩) 0 "a"
  rw [readsRecordOrNone_iff] at hcut
  have hparse := hcut "\x7b\"id\":" rfl
  exact absurd hparse (by decide)

end FileForge.Files.StoredRecords
