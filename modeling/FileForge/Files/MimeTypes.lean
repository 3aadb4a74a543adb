import FileForge.Foundation.CaseMapping

/-!
# The types that are taken

`resolveMimeType` of `src/files/upload.ts` and the filter of the upload middleware. A declared type
that says nothing falls back on the extension of the filename: the filename is lowered and cut at the
position that its last dot had before (`resolveMimeType`).

The position is the same in both as long as no character becomes longer, which only `İ` does.
`resolveMimeType_iff` is what follows: behind a stem with an `İ` no extension is known any more.
-/

set_option autoImplicit false
set_option relaxedAutoImplicit false

namespace FileForge.Files.MimeTypes

open Foundation.EcmaText Foundation.CaseMapping

/-! ### The functions -/

/-- `ALLOWED_MIME_TYPES` -/
def allowedMimeTypes : List String :=
  ["image/jpeg", "image/png", "image/webp", "image/gif", "image/tiff",
    "text/csv", "application/csv", "text/plain"]

/-- `ALLOWED_EXTENSIONS` -/
def allowedExtensions : List (String × String) :=
  [(".jpg", "image/jpeg"), (".jpeg", "image/jpeg"), (".png", "image/png"), (".webp", "image/webp"),
    (".gif", "image/gif"), (".tif", "image/tiff"), (".tiff", "image/tiff"), (".csv", "text/csv")]

/-- `UNINFORMATIVE_TYPES` -/
def uninformativeTypes : List String := ["application/octet-stream", "binary/octet-stream", ""]

/-- `filename.toLowerCase().slice(filename.lastIndexOf('.'))`. -/
def extensionOf (toLowerCase : String → String) (filename : String) : String :=
  String.ofList (sliceFrom (lastIndexOf '.' filename.toList) (toLowerCase filename).toList)

def resolveMimeType (toLowerCase : String → String) (declared filename : String) : Option String :=
  if declared ∈ allowedMimeTypes then some declared
  else if declared ∈ uninformativeTypes then
    allowedExtensions.lookup (extensionOf toLowerCase filename)
  else none

/-- `fileFilter`: the type that an upload goes on with, or the message of its refusal. -/
def fileFilter (toLowerCase : String → String) (mimetype originalname : String) :
    Except String String :=
  match resolveMimeType toLowerCase mimetype originalname with
  | none => .error ("Unsupported file type: " ++ mimetype)
  | some resolved => .ok resolved

/-! ### The extensions of the list -/

/-- A dot in front and no other, ASCII only, and more than the dot. -/
def isExtension (chars : List Char) : Bool :=
  chars.head? = some '.' && !chars.tail.contains '.' && chars.all (fun c ↦ c.toNat < 0x80) &&
    1 < unitLength chars

theorem isExtension_of_mem : ∀ entry ∈ allowedExtensions, isExtension entry.1.toList = true := by
  decide

theorem lookup_of_not_isExtension {chars : List Char} (h : isExtension chars = false) :
    allowedExtensions.lookup (String.ofList chars) = none := by
  refine List.lookup_eq_none_iff.mpr fun entry hmem ↦ bne_iff_ne.mpr ?_
  intro heq
  have hentry := isExtension_of_mem entry hmem
  rw [← heq, String.toList_ofList, h] at hentry
  cases hentry

/-- Nothing stands in front of the dot of an extension. -/
theorem not_isExtension_append {front : List Char} (h : front ≠ []) (rest : List Char) :
    isExtension (front ++ '.' :: rest) = false := by
  cases front with
  | nil => exact absurd rfl h
  | cons c front =>
    have hdot : (c :: front ++ '.' :: rest).tail.contains '.' = true := by simp
    rw [isExtension, hdot]
    simp

theorem not_isExtension_of_mem {chars : List Char} {c : Char} (h : c ∈ chars)
    (hc : ¬ c.toNat < 0x80) : isExtension chars = false := by
  have hall : chars.all (fun c ↦ c.toNat < 0x80) = false :=
    List.all_eq_false.mpr ⟨c, h, by simpa using hc⟩
  rw [isExtension, hall]
  simp

theorem not_isExtension_of_le {chars : List Char} (h : unitLength chars ≤ 1) :
    isExtension chars = false := by
  rw [isExtension, decide_eq_false (Nat.not_lt.mpr h), Bool.and_false]

/-! ### The fallback -/

section Fallback

variable (final : List Char → List Char → Bool)

/-- A name without a dot is cut to its last code unit. -/
theorem lookup_of_no_dot {filename : String} (h : '.' ∉ filename.toList) :
    allowedExtensions.lookup (extensionOf (toLowerCase final) filename) = none := by
  refine lookup_of_not_isExtension (not_isExtension_of_le ?_)
  have hposition : lastIndexOf '.' filename.toList = -1 := if_neg h
  rw [hposition, sliceFrom, if_pos (by decide), unitLength_dropUnits]
  omega

/-- The extension behind a stem: the lowered one, and in front of it as many code units of the
lowered stem as the stem has characters `İ`. -/
theorem extensionOf_eq (stem : String) {ext : String} (h : '.' ∉ ext.toList) :
    ∃ front, (front = [] ↔ dottedI ∉ stem.toList) ∧
      (extensionOf (toLowerCase final) (stem ++ "." ++ ext)).toList =
        front ++ '.' :: lowerFrom final (stem.toList ++ ['.']) ext.toList := by
  have hname : (stem ++ "." ++ ext).toList = stem.toList ++ '.' :: ext.toList := by
    simp [String.toList_append]
  have hposition := lastIndexOf_append h stem.toList
  obtain ⟨start, hstart, hlength⟩ := lowerFrom_append final [] stem.toList ('.' :: ext.toList)
  have hdot : lowerFrom final ([] ++ stem.toList) ('.' :: ext.toList) =
      '.' :: lowerFrom final (stem.toList ++ ['.']) ext.toList := by
    rw [lowerFrom, lowered_of_lt (by decide), List.nil_append, List.singleton_append]
  rw [hdot] at hstart
  have hcut : (extensionOf (toLowerCase final) (stem ++ "." ++ ext)).toList =
      dropUnits (unitLength stem.toList)
        (start ++ '.' :: lowerFrom final (stem.toList ++ ['.']) ext.toList) := by
    rw [extensionOf, String.toList_ofList, toLowerCase, String.toList_ofList, hname, hposition,
      hstart, sliceFrom, if_neg (Int.not_lt.mpr (Int.natCast_nonneg _)), Int.toNat_natCast]
  rw [hcut]
  by_cases hdotted : dottedI ∈ stem.toList
  · have hcount := List.count_pos_iff.mpr hdotted
    have hshort : unitLength stem.toList < unitLength start := by omega
    obtain ⟨front, hfront, hrest⟩ := exists_dropUnits_append hshort
      ('.' :: lowerFrom final (stem.toList ++ ['.']) ext.toList)
    exact ⟨front, iff_of_false hfront fun hnot ↦ hnot hdotted, hrest⟩
  · have hcount := List.count_eq_zero.mpr hdotted
    have hsame : unitLength stem.toList = unitLength start := by omega
    refine ⟨[], iff_of_true rfl hdotted, ?_⟩
    rw [hsame, dropUnits_append]
    rfl

/-- The context of an extension does not count where the list is asked: a sigma is in no extension
of it. -/
theorem lookup_lowerFrom (before other ext : List Char) :
    allowedExtensions.lookup (String.ofList ('.' :: lowerFrom final before ext)) =
      allowedExtensions.lookup (String.ofList ('.' :: lowerFrom final other ext)) := by
  by_cases hsigma : sigma ∈ ext
  · have hnone : ∀ before, allowedExtensions.lookup
        (String.ofList ('.' :: lowerFrom final before ext)) = none := by
      intro before
      obtain ⟨d, hd, hsmall⟩ := exists_mem_of_sigma final hsigma before
      refine lookup_of_not_isExtension
        (not_isExtension_of_mem (List.mem_cons_of_mem '.' hd) ?_)
      rcases hsmall with rfl | rfl <;> decide
    rw [hnone, hnone]
  · rw [lowerFrom_congr final hsigma before other]

theorem resolveMimeType_of_uninformative {declared : String} (h : declared ∈ uninformativeTypes)
    (lowering : String → String) (filename : String) :
    resolveMimeType lowering declared filename =
      allowedExtensions.lookup (extensionOf lowering filename) := by
  have hnone : ∀ uninformative ∈ uninformativeTypes, uninformative ∉ allowedMimeTypes := by decide
  rw [resolveMimeType, if_neg (hnone declared h), if_pos h]

/-- The extension by itself, in the context that it has behind a stem. -/
theorem lookup_toLowerCase (stem ext : String) :
    allowedExtensions.lookup (toLowerCase final ("." ++ ext)) =
      allowedExtensions.lookup
        (String.ofList ('.' :: lowerFrom final (stem.toList ++ ['.']) ext.toList)) := by
  have htext : ("." ++ ext).toList = '.' :: ext.toList := by simp [String.toList_append]
  rw [toLowerCase, htext, lowerFrom, lowered_of_lt (by decide), List.singleton_append]
  exact lookup_lowerFrom final _ _ ext.toList

/-- Assumes: a declared type that says nothing. A name without a dot is refused, and the extension
decides exactly when the stem has no `İ` or the extension is not on the list. -/
theorem resolveMimeType_iff {declared : String} (h : declared ∈ uninformativeTypes) :
    (∀ filename : String, '.' ∉ filename.toList →
      resolveMimeType (toLowerCase final) declared filename = none ∧
        fileFilter (toLowerCase final) declared filename =
          .error ("Unsupported file type: " ++ declared)) ∧
      ∀ stem ext : String, '.' ∉ ext.toList →
        (resolveMimeType (toLowerCase final) declared (stem ++ "." ++ ext) =
            allowedExtensions.lookup (toLowerCase final ("." ++ ext)) ↔
          dottedI ∉ stem.toList ∨
            allowedExtensions.lookup (toLowerCase final ("." ++ ext)) = none) := by
  constructor
  · intro filename hdot
    have hnone : resolveMimeType (toLowerCase final) declared filename = none := by
      rw [resolveMimeType_of_uninformative h, lookup_of_no_dot final hdot]
    exact ⟨hnone, by rw [fileFilter, hnone]⟩
  · intro stem ext hdot
    obtain ⟨front, hfront, hcut⟩ := extensionOf_eq final stem hdot
    rw [resolveMimeType_of_uninformative h,
      ← String.ofList_toList (s := extensionOf (toLowerCase final) (stem ++ "." ++ ext)), hcut,
      lookup_toLowerCase final stem ext, ← hfront]
    by_cases hempty : front = []
    · rw [hempty]
      exact iff_of_true rfl (Or.inl rfl)
    · rw [lookup_of_not_isExtension (not_isExtension_append hempty _), or_iff_right hempty]
      exact eq_comm

end Fallback

/-- A name without a dot, and one whose capital extension is on the list. -/
theorem resolveMimeType_iff_octetStream :
    resolveMimeType (toLowerCase fun _ _ ↦ false) "application/octet-stream" "photo" = none ∧
      resolveMimeType (toLowerCase fun _ _ ↦ false) "application/octet-stream" "photo.JPG" =
        some "image/jpeg" := by
  have hdeclared : "application/octet-stream" ∈ uninformativeTypes := by decide
  obtain ⟨hrefused, hdecided⟩ := resolveMimeType_iff (fun _ _ ↦ false) hdeclared
  refine ⟨(hrefused "photo" (by decide)).1, ?_⟩
  have hphoto := (hdecided "photo" "JPG" (by decide)).mpr (Or.inl (by decide))
  exact hphoto.trans (by decide +kernel)

/-- Behind the letter that becomes longer, the extension of a picture is not found. -/
theorem not_forall_resolveMimeType :
    ¬ ∀ (final : List Char → List Char → Bool) (declared stem ext : String),
      declared ∈ uninformativeTypes → '.' ∉ ext.toList →
        resolveMimeType (toLowerCase final) declared (stem ++ "." ++ ext) =
          allowedExtensions.lookup (toLowerCase final ("." ++ ext)) := by
  intro h
  have hpicture := h (fun _ _ ↦ false) "application/octet-stream" (String.singleton dottedI) "png"
    (by decide) (by decide)
  exact absurd hpicture (by decide +kernel)

end FileForge.Files.MimeTypes
