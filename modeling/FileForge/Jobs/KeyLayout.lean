import FileForge.Foundation.CaseMapping
import FileForge.Jobs.HopelessJobs

/-!
# The layout of generated keys

`storageKeyFor` of `src/files/upload.ts` and `outputKey` of `src/jobs/image.ts`: an upload is stored
under a fresh identifier and the extension of its name, and what is made of it under the same
identifier, the operation and another one. The sweep looks one level below `uploads` and `outputs`,
so both keys have to be a directory and a single name.

The extension of a name has one dot, at its start, and no slash, in any case of its letters and
wherever it is cut (`exists_extension`). So the extension of the key is found again in it, behind
the identifier (`imageKey_storageKeyFor`).
-/

set_option autoImplicit false
set_option relaxedAutoImplicit false

namespace FileForge.Jobs.KeyLayout

open Foundation.EcmaText Foundation.PosixPath Foundation.CaseMapping
open Storage.LocalStorage Files.Repository Files.Upload Csv JobOptions Processors HopelessJobs

/-! ### Identifiers -/

/-- A character of an identifier: a hexadecimal digit or a dash. -/
def IsIdChar (c : Char) : Prop :=
  c.isDigit = true ∨ c ∈ "abcdefABCDEF-".toList

instance : DecidablePred IsIdChar := fun _ ↦ inferInstanceAs (Decidable (_ ∨ _))

/-- `randomUUID()`. -/
structure Uuid where
  text : String
  chars : ∀ c ∈ text.toList, IsIdChar c
  nonempty : text ≠ ""

theorem IsIdChar.plain {c : Char} (h : IsIdChar c) : c ≠ '.' ∧ c ≠ '/' := by
  constructor
  · rintro rfl
    exact absurd h (by decide)
  · rintro rfl
    exact absurd h (by decide)

theorem Uuid.notMem (id : Uuid) : '.' ∉ id.text.toList ∧ '/' ∉ id.text.toList :=
  ⟨fun h ↦ (id.chars '.' h).plain.1 rfl, fun h ↦ (id.chars '/' h).plain.2 rfl⟩

theorem Uuid.exists_cons (id : Uuid) :
    ∃ c rest, id.text.toList = c :: rest ∧ c ≠ '.' := by
  obtain ⟨c, rest, hchars⟩ := List.exists_cons_of_ne_nil fun hnil ↦
    id.nonempty (String.toList_eq_nil_iff.mp hnil)
  exact ⟨c, rest, hchars, (id.chars c (by rw [hchars]; exact List.mem_cons_self)).plain.1⟩

/-- What the handler takes from the runtime. -/
def runtimeOf (id : Uuid) (final : List Char → List Char → Bool) (recordId now : String) :
    Files.Upload.Runtime where
  keyId := id.text
  recordId := recordId
  now := now
  toLowerCase := toLowerCase final

/-! ### Extensions -/

/-- Nothing, or a dot and what follows it, without another dot and without a slash. -/
def IsExtension (chars : List Char) : Prop :=
  chars = [] ∨ ∃ rest, chars = '.' :: rest ∧ '.' ∉ rest ∧ '/' ∉ rest

theorem slash_notMem_lastPart (path : List Char) : '/' ∉ lastPart path := by
  intro h
  have htaken := List.mem_takeWhile_imp (List.mem_reverse.mp h)
  exact absurd htaken (by decide)

theorem isExtension_extname (path : String) : IsExtension (extname path).toList := by
  unfold extname
  dsimp only
  split_ifs with hnone
  · exact Or.inl rfl
  · refine Or.inr ⟨_, String.toList_ofList, ?_, ?_⟩
    · intro h
      have htaken := List.mem_takeWhile_imp (List.mem_reverse.mp h)
      exact absurd htaken (by decide)
    · intro h
      have hpart := (List.takeWhile_prefix _).mem (List.mem_reverse.mp h)
      exact slash_notMem_lastPart _ (List.mem_reverse.mp hpart)

theorem isExtension_lowerFrom {chars : List Char} (h : IsExtension chars)
    (final : List Char → List Char → Bool) : IsExtension (lowerFrom final [] chars) := by
  rcases h with rfl | ⟨rest, rfl, hdot, hslash⟩
  · exact Or.inl rfl
  · refine Or.inr ⟨lowerFrom final ['.'] rest, ?_, ?_, ?_⟩
    · rw [lowerFrom, lowered_of_lt (by decide)]
      rfl
    · exact fun hmem ↦ hdot (mem_lowerFrom final hmem (by decide))
    · exact fun hmem ↦ hslash (mem_lowerFrom final hmem (by decide))

theorem isExtension_sliceStart {chars : List Char} (h : IsExtension chars) (count : ℕ) :
    IsExtension (sliceStart count chars) := by
  rcases h with rfl | ⟨rest, rfl, hdot, hslash⟩
  · exact Or.inl rfl
  · rw [sliceStart]
    split_ifs with hcount hfits
    · exact Or.inl rfl
    · refine Or.inr ⟨_, rfl, fun hmem ↦ ?_, fun hmem ↦ ?_⟩
      · rcases mem_sliceStart hmem with hrest | hcut
        · exact hdot hrest
        · exact absurd hcut (by decide)
      · rcases mem_sliceStart hmem with hrest | hcut
        · exact hslash hrest
        · exact absurd hcut (by decide)
    · exact absurd (Nat.pos_of_ne_zero hcount) hfits

/-! ### The extension of a key -/

/-- The last component of a path that ends in a name. -/
theorem lastPart_append {name : List Char} (hne : name ≠ []) (h : '/' ∉ name)
    (before : List Char) : lastPart (before ++ '/' :: name) = name := by
  have hreverse : ∀ c ∈ name.reverse, decide (c ≠ '/') = true := by
    intro c hc
    refine decide_eq_true ?_
    rintro rfl
    exact h (List.mem_reverse.mp hc)
  have hkept : ((before ++ '/' :: name).reverse.dropWhile fun c ↦ decide (c = '/')) =
      name.reverse ++ '/' :: before.reverse := by
    rw [List.reverse_append, List.reverse_cons, List.append_assoc, List.singleton_append]
    obtain ⟨c, rest, hname⟩ := List.exists_cons_of_ne_nil
      (fun hnil ↦ hne (List.reverse_eq_nil_iff.mp hnil))
    have hc := hreverse c (by rw [hname]; exact List.mem_cons_self)
    rw [hname, List.cons_append, List.dropWhile_cons_of_neg (by simpa using hc)]
  rw [lastPart, hkept, List.takeWhile_append_of_pos hreverse,
    List.takeWhile_cons_of_neg (by simp), List.append_nil, List.reverse_reverse]

/-- The extension of a name behind a start without dots. -/
theorem extname_append {front ext : List Char} (hne : front ≠ []) (hdot : '.' ∉ front)
    (hslash : '/' ∉ front) (hext : IsExtension ext) (before : List Char) :
    (extname (String.ofList (before ++ '/' :: (front ++ ext)))).toList = ext := by
  have hplain : '/' ∉ front ++ ext := by
    refine List.not_mem_append hslash ?_
    rcases hext with rfl | ⟨rest, rfl, -, hrest⟩
    · exact List.not_mem_nil
    · simpa using hrest
  have hpart := lastPart_append (List.append_ne_nil_of_left_ne_nil hne ext) hplain before
  rw [extname, String.toList_ofList, hpart]
  rcases hext with rfl | ⟨rest, rfl, hrest, -⟩
  · rw [List.append_nil, if_pos (Or.inr (Or.inl hdot))]
    rfl
  · have hbehind : ∀ c ∈ rest.reverse, decide (c ≠ '.') = true := by
      intro c hc
      refine decide_eq_true ?_
      rintro rfl
      exact hrest (List.mem_reverse.mp hc)
    have hreverse : (front ++ '.' :: rest).reverse = rest.reverse ++ '.' :: front.reverse := by
      simp
    have hsome : ¬ (front ++ '.' :: rest = "..".toList ∨ '.' ∉ front ++ '.' :: rest ∨
        ((front ++ '.' :: rest).reverse.dropWhile (· ≠ '.')).length ≤ 1) := by
      rw [hreverse, List.dropWhile_append_of_pos hbehind, List.dropWhile_cons_of_neg (by simp)]
      obtain ⟨c, tail, rfl⟩ := List.exists_cons_of_ne_nil hne
      rintro (hup | hnone | hshort)
      · exact hdot (List.mem_cons.mpr (Or.inl (List.cons.inj hup).1.symm))
      · exact hnone (by simp)
      · rw [List.length_cons, List.length_reverse, List.length_cons] at hshort
        omega
    rw [if_neg hsome, String.toList_ofList, hreverse, List.takeWhile_append_of_pos hbehind,
      List.takeWhile_cons_of_neg (by simp), List.append_nil, List.reverse_reverse]

/-- The first occurrence of an extension behind a start without dots is the extension itself. -/
theorem removeFirst_append {front ext : List Char} (hdot : '.' ∉ front) (hext : IsExtension ext) :
    removeFirst ext (front ++ ext) = front := by
  rcases hext with rfl | ⟨rest, rfl, -, -⟩
  · cases front with
    | nil => rfl
    | cons c tail => exact (congrArg _ (List.append_nil _)).trans (if_pos List.nil_prefix)
  · induction front with
    | nil =>
      rw [List.nil_append, removeFirst, if_pos (List.prefix_refl _), List.drop_length]
    | cons c tail ih =>
      rw [List.mem_cons, not_or] at hdot
      have hother : ¬ '.' :: rest <+: c :: (tail ++ '.' :: rest) := fun hprefix ↦
        hdot.1 (List.cons_prefix_cons.mp hprefix).1
      rw [List.cons_append, removeFirst, if_neg hother, ih hdot.2]

section Keys

variable (id : Uuid) (final : List Char → List Char → Bool) (recordId now name : String)

/-- A storage key is the identifier in `uploads` with at most ten code units of extension. -/
theorem exists_extension :
    ∃ ext : List Char, IsExtension ext ∧ unitLength ext ≤ 10 ∧
      storageKeyFor (runtimeOf id final recordId now) name =
        "uploads/" ++ id.text ++ String.ofList ext := by
  refine ⟨sliceStart 10 (lowerFrom final [] (extname name).toList), ?_,
    unitLength_sliceStart_le 10 _, ?_⟩
  · exact isExtension_sliceStart (isExtension_lowerFrom (isExtension_extname name) final) 10
  · rw [storageKeyFor]
    show _ ++ id.text ++ String.ofList (sliceStart 10 (toLowerCase final (extname name)).toList) = _
    rw [toLowerCase, String.toList_ofList]

/-- The key of what is made of an upload has the identifier of the upload and nothing else of its
key. -/
theorem imageKey_storageKeyFor (suffix ext : String) (fresh : OutputKeys.IdStart) :
    imageKey (storageKeyFor (runtimeOf id final recordId now) name) suffix ext fresh =
      "outputs/" ++ id.text ++ "-" ++ suffix ++ "-" ++ fresh.text ++ ext := by
  obtain ⟨extension, hextension, -, hkey⟩ := exists_extension id final recordId now name
  have hne : id.text.toList ≠ [] := fun hnil ↦ id.nonempty (String.toList_eq_nil_iff.mp hnil)
  have htext : storageKeyFor (runtimeOf id final recordId now) name =
      String.ofList ("uploads".toList ++ '/' :: (id.text.toList ++ extension)) := by
    rw [hkey, ← String.toList_inj]
    simp [String.toList_append]
  have hfound := extname_append hne id.notMem.1 id.notMem.2 hextension "uploads".toList
  have hbase : removeFirst (extname (storageKeyFor (runtimeOf id final recordId now) name)).toList
      (id.text.toList ++ extension) = id.text.toList := by
    rw [htext, hfound, removeFirst_append id.notMem.1 hextension]
  have hname : (storageKeyFor (runtimeOf id final recordId now) name).toList =
      "uploads/".toList ++ (id.text.toList ++ extension) := by
    rw [htext, String.toList_ofList]
    rfl
  rw [imageKey, if_pos (by rw [hname]; exact List.prefix_append _ _), hname, List.drop_left, hbase,
    String.ofList_toList]

end Keys

/-! ### The layout -/

/-- What the image operations do, for every choice of their options. -/
inductive IsImageWork : ImageWork → Prop
  | resize (options : ResizeOptions) : IsImageWork (resizeWork options)
  | convert (options : ConvertOptions) : IsImageWork (convertWork options)
  | thumbnail (options : ThumbnailOptions) : IsImageWork (thumbnailWork options)

/-- What an operation adds to a key has no slash. -/
theorem IsImageWork.plain {work : ImageWork} (h : IsImageWork work) (metadata : Metadata) :
    '/' ∉ work.suffix.toList ∧ '/' ∉ (work.ext metadata).toList := by
  have hformats (format : String) {fallback : String} (hfallback : '/' ∉ fallback.toList) :
      '/' ∉ ((formatExtensions.lookup format).getD fallback).toList :=
    @extension_of_forall (fun ext ↦ '/' ∉ ext.toList) (by decide) format fallback hfallback
  cases h with
  | resize options =>
    have hsuffix : '/' ∉ "resized".toList := by decide
    exact ⟨hsuffix, hformats _ (by decide)⟩
  | convert options =>
    refine ⟨?_, hformats _ (by decide)⟩
    show '/' ∉ options.format.text.toList
    cases options.format <;> decide
  | thumbnail options =>
    have hext : '/' ∉ ".webp".toList := by decide
    refine ⟨?_, hext⟩
    show '/' ∉ ("thumb" ++ toString options.size.value).toList
    rw [String.toList_append, Nat.toString_eq_repr, Nat.toList_repr]
    refine List.not_mem_append (by decide) fun hmem ↦ ?_
    have hdigit := Nat.isDigit_of_mem_toDigits (by decide) (by decide) hmem
    exact absurd hdigit (by decide)

/-- The key of an upload, and of everything that is made of it, is a single name that starts with
the identifier, in its directory under every root. -/
structure HasLayout (id : Uuid) (key : String) : Prop where
  upload : ∃ rest : String, key = "uploads/" ++ (id.text ++ rest) ∧
    '/' ∉ (id.text ++ rest).toList ∧ ¬ ['.', '.'] <:+: (id.text ++ rest).toList ∧
      unitLength rest.toList ≤ 10
  inUploads : ∀ root, DirectChild root "uploads" key
  output : ∀ work, IsImageWork work → ∀ (metadata : Metadata) (fresh : OutputKeys.IdStart),
    ∃ rest : String,
      imageKey key work.suffix (work.ext metadata) fresh = "outputs/" ++ (id.text ++ "-" ++ rest) ∧
        '/' ∉ (id.text ++ "-" ++ rest).toList
  inOutputs : ∀ work, IsImageWork work → ∀ (metadata : Metadata) (fresh : OutputKeys.IdStart) root,
    DirectChild root "outputs" (imageKey key work.suffix (work.ext metadata) fresh)

theorem isName_append (id : Uuid) {rest : String} (h : '/' ∉ (id.text ++ rest).toList) :
    IsName (id.text ++ rest) := by
  obtain ⟨c, tail, hchars, hdot⟩ := id.exists_cons
  refine isName_of_mem (c := c) ?_ hdot h
  rw [String.toList_append, hchars]
  exact List.mem_cons_self

/-- Two dots do not follow each other where the only one is the first of an extension. -/
theorem no_dots {front ext : List Char} (hdot : '.' ∉ front) (hext : IsExtension ext) :
    ¬ ['.', '.'] <:+: front ++ ext := by
  intro hdots
  have hcount := (hdots.sublist.count_le '.').trans_eq (List.count_append ..)
  rw [List.count_eq_zero.mpr hdot] at hcount
  rcases hext with rfl | ⟨rest, rfl, hrest, -⟩
  · exact absurd hcount (by decide)
  · have hone : ('.' :: rest).count '.' = 1 := by
      rw [List.count_cons_self, List.count_eq_zero.mpr hrest]
    rw [hone] at hcount
    exact absurd hcount (by decide)

section Keys

variable (id : Uuid) (final : List Char → List Char → Bool) (recordId now name : String)

/-- What follows the identifier in the key of an image has no slash. -/
theorem exists_imageKey_eq {work : ImageWork} (hwork : IsImageWork work) (metadata : Metadata)
    (fresh : OutputKeys.IdStart) :
    ∃ rest : String, imageKey (storageKeyFor (runtimeOf id final recordId now) name) work.suffix
        (work.ext metadata) fresh = "outputs/" ++ (id.text ++ "-" ++ rest) ∧
      '/' ∉ (id.text ++ "-" ++ rest).toList := by
  obtain ⟨hsuffix, hext⟩ := hwork.plain metadata
  have hfresh : '/' ∉ fresh.text.toList := by
    have hplain : ∀ c ∈ fresh.text.toList, c ≠ '/' := by
      refine fresh.forall_mem (fun c hdigit ↦ ?_) (forall_mem_of_all (by decide))
      rintro rfl
      exact absurd hdigit (by decide)
    exact fun hmem ↦ hplain '/' hmem rfl
  refine ⟨work.suffix ++ "-" ++ fresh.text ++ work.ext metadata, ?_, ?_⟩
  · rw [imageKey_storageKeyFor, ← String.toList_inj]
    simp [String.toList_append]
  · simp only [String.toList_append, List.mem_append, not_or]
    exact ⟨⟨id.notMem.2, by decide⟩, ⟨⟨hsuffix, by decide⟩, hfresh⟩, hext⟩

/-- Every generated key has the layout that the sweep relies on. -/
theorem hasLayout_storageKeyFor :
    HasLayout id (storageKeyFor (runtimeOf id final recordId now) name) := by
  obtain ⟨ext, hext, hlength, hkey⟩ := exists_extension id final recordId now name
  have hkey' : storageKeyFor (runtimeOf id final recordId now) name =
      "uploads/" ++ (id.text ++ String.ofList ext) := by
    rw [hkey, String.append_assoc]
  have hchars : (id.text ++ String.ofList ext).toList = id.text.toList ++ ext := by
    rw [String.toList_append, String.toList_ofList]
  have hslash : '/' ∉ (id.text ++ String.ofList ext).toList := by
    rw [hchars]
    refine List.not_mem_append id.notMem.2 ?_
    rcases hext with rfl | ⟨rest, rfl, -, hrest⟩
    · exact List.not_mem_nil
    · simpa using hrest
  have himage := @exists_imageKey_eq id final recordId now name
  refine ⟨⟨String.ofList ext, hkey', hslash, ?_, ?_⟩, fun root ↦ ?_, @himage, ?_⟩
  · rw [hchars]
    exact no_dots id.notMem.1 hext
  · rw [String.toList_ofList]
    exact hlength
  · rw [hkey']
    exact directChild_of_names root (by decide) (isName_append id hslash)
  · intro work hwork metadata fresh root
    obtain ⟨rest, himageKey, hplain⟩ := himage hwork metadata fresh
    rw [himageKey]
    rw [String.append_assoc] at hplain ⊢
    exact directChild_of_names root (by decide) (isName_append id hplain)

end Keys

/-! ### Records of uploads -/

/-- The record of an upload: the name has been sanitised, and the key was generated for it. -/
def Uploaded (record : FileRecord) : Prop :=
  ∃ (id : Uuid) (final : List Char → List Char → Bool) (recordId now name : String),
    record.originalName = sanitizeFilename name ∧
      record.storageKey = storageKeyFor (runtimeOf id final recordId now) record.originalName

end FileForge.Jobs.KeyLayout
