import FileForge.Csv.OutputKeys

/-!
# Names that are safe to keep

`sanitizeFilename` is to return a name of 1 to 255 code units without separators, control characters
and reserved characters (`IsSafe`). The product keys of a CSV job, which are built from it, then name
direct children of `outputs` (`directChild_producedKey`).

The path is removed by `/^.*[\\/]/`, which sees the first line only, and the line breaks are removed
after it. `sanitises_iff` says for which names the promise is kept: a separator behind a line break
stays, unless the name is cut before it.
-/

set_option autoImplicit false
set_option relaxedAutoImplicit false

namespace FileForge.Files.SafeNames

open Foundation.EcmaText Foundation.PosixPath Storage.LocalStorage Upload Csv.OutputKeys

/-! ### The promise -/

structure IsSafe (name : String) : Prop where
  length : 1 ≤ unitLength name.toList ∧ unitLength name.toList ≤ 255
  chars : ∀ c ∈ name.toList, isSeparator c = false ∧ isControl c = false ∧ isReserved c = false

/-- `sanitizeFilename` makes a safe name of a name, keeps it when it is one and has no white space
around it, and the keys that are built from the result lie in `outputs`. -/
structure Sanitises (name : String) : Prop where
  safe : IsSafe (sanitizeFilename name)
  keys : ∀ root product id, DirectChild root "outputs" (producedKey name product id)
  kept : IsSafe name → trim name = name → sanitizeFilename name = name

/-- The part of the first line behind its last separator. -/
def lineEnd (name : List Char) : List Char :=
  ((name.takeWhile fun c ↦ !isLineTerminator c).reverse.takeWhile fun c ↦ !isSeparator c).reverse

/-- The first line break and what follows it. -/
def laterLines (name : List Char) : List Char := name.dropWhile fun c ↦ !isLineTerminator c

/-- What the later steps keep of the start of a name. -/
def kept (start : List Char) : List Char :=
  (start.filter fun c ↦ !isControl c).dropWhile isSpace

/-- No separator follows the first line break, or the first one that does is preceded by 255 code
units that are kept. -/
def SeparatorsCutOff (name : List Char) : Prop :=
  (∀ c ∈ laterLines name, isSeparator c = false) ∨
    255 ≤ unitLength (kept (lineEnd name ++ (laterLines name).takeWhile fun c ↦ !isSeparator c))

instance (name : List Char) : Decidable (SeparatorsCutOff name) :=
  inferInstanceAs (Decidable (_ ∨ _))

/-! ### Separators and the steps -/

/-- A separator is none of the characters that the steps remove or replace. -/
theorem isSeparator_iff {c : Char} : isSeparator c = true ↔ c = '/' ∨ c = '\\' := by
  simp only [isSeparator, Bool.or_eq_true, decide_eq_true_eq]
  refine or_congr_right ⟨fun h ↦ ?_, fun h ↦ ?_⟩
  · exact Char.toNat_inj.mp h
  · rw [h]
    rfl

theorem of_isSeparator {c : Char} (h : isSeparator c = true) :
    isControl c = false ∧ isReserved c = false ∧ isSpace c = false ∧ codeUnits c = 1 := by
  rcases isSeparator_iff.mp h with rfl | rfl
  · decide
  · decide

/-- A reserved character is replaced by another character of one code unit. -/
def replaced (c : Char) : Char := if isReserved c then '_' else c

theorem isSeparator_replaced (c : Char) : isSeparator (replaced c) = isSeparator c := by
  unfold replaced
  split_ifs with hreserved
  · have hplain : ∀ d ∈ ['<', '>', ':', '"', '|', '?', '*'], isSeparator '_' = isSeparator d :=
      forall_mem_of_all (by decide)
    exact hplain c (by simpa [isReserved] using hreserved)
  · rfl

theorem codeUnits_replaced (c : Char) : codeUnits (replaced c) = codeUnits c := by
  unfold replaced
  split_ifs with hreserved
  · have hplain : ∀ d ∈ ['<', '>', ':', '"', '|', '?', '*'], codeUnits '_' = codeUnits d :=
      forall_mem_of_all (by decide)
    exact hplain c (by simpa [isReserved] using hreserved)
  · rfl

theorem isSpace_replaced (c : Char) : isSpace (replaced c) = isSpace c := by
  unfold replaced
  split_ifs with hreserved
  · have hplain : ∀ d ∈ ['<', '>', ':', '"', '|', '?', '*'], isSpace '_' = isSpace d :=
      forall_mem_of_all (by decide)
    exact hplain c (by simpa [isReserved] using hreserved)
  · rfl

/-- What is kept of a start is not changed by the replacement of reserved characters. -/
theorem dropWhile_map_replaced (start : List Char) :
    (((start.filter fun c ↦ !isControl c).map replaced).dropWhile isSpace) =
      (kept start).map replaced := by
  rw [List.dropWhile_map, kept]
  congr 2
  funext c
  exact isSpace_replaced c

theorem unitLength_map_replaced (chars : List Char) :
    unitLength (chars.map replaced) = unitLength chars := by
  induction chars with
  | nil => rfl
  | cons c rest ih => rw [List.map_cons, unitLength_cons, unitLength_cons, codeUnits_replaced, ih]

/-! ### The first line and the later ones -/

theorem lineEnd_plain (name : List Char) : ∀ c ∈ lineEnd name, isSeparator c = false := by
  intro c hc
  have htaken := List.mem_takeWhile_imp (List.mem_reverse.mp hc)
  simpa using htaken

/-- A name without separators loses nothing with its path. -/
theorem withoutPath_of_plain {name : List Char} (h : ∀ c ∈ name, isSeparator c = false) :
    withoutPath name = name := by
  have hline : ((name.takeWhile fun c ↦ !isLineTerminator c).reverse.takeWhile fun c ↦
      !isSeparator c) = (name.takeWhile fun c ↦ !isLineTerminator c).reverse := by
    refine List.takeWhile_eq_self_iff.mpr fun c hc ↦ ?_
    rw [h c ((List.takeWhile_prefix _).mem (List.mem_reverse.mp hc))]
    rfl
  rw [withoutPath, hline, List.reverse_reverse, List.takeWhile_append_dropWhile]

/-- No separator is left where the later lines have none. -/
theorem cleaned_plain {name : List Char} (h : ∀ c ∈ laterLines name, isSeparator c = false) :
    ∀ c ∈ cleaned name, isSeparator c = false := by
  intro c hc
  obtain ⟨original, hkept, hreplaced⟩ := List.mem_map.mp (mem_of_mem_trimChars hc)
  have hplain : isSeparator original = false := by
    rcases List.mem_append.mp (List.mem_filter.mp hkept).1 with hfirst | hlater
    · exact lineEnd_plain name original hfirst
    · exact h original hlater
  rw [← hreplaced]
  exact (isSeparator_replaced original).trans hplain

/-- Trimming does not reach beyond a separator. -/
theorem trimChars_separator {c : Char} (h : isSeparator c = true) (before after : List Char) :
    trimChars (before ++ c :: after) =
      before.dropWhile isSpace ++ c :: after.rdropWhile isSpace := by
  have hspace : isSpace c = false := (of_isSeparator h).2.2.1
  have hfirst :
      (before ++ c :: after).dropWhile isSpace = before.dropWhile isSpace ++ c :: after := by
    rw [List.dropWhile_append]
    split_ifs with hblank
    · rw [List.isEmpty_iff.mp hblank, List.dropWhile_cons_of_neg (by simp [hspace])]
      rfl
    · rfl
  rw [trimChars, hfirst]
  generalize before.dropWhile isSpace = start
  induction start with
  | nil => rw [List.nil_append, List.nil_append, rdropWhile_cons, if_neg (by simp [hspace])]
  | cons d rest ih =>
    rw [List.cons_append, rdropWhile_cons, ih, if_neg (by simp)]
    rfl

/-- The first separator of the later lines is kept, behind what is kept of the text before it. -/
theorem exists_cleaned_eq {name : List Char} {c : Char} (hmem : c ∈ laterLines name)
    (hseparator : isSeparator c = true) :
    ∃ d after, isSeparator d = true ∧
      cleaned name = (kept (lineEnd name ++
        (laterLines name).takeWhile fun c ↦ !isSeparator c)).map replaced ++ d :: after := by
  obtain ⟨d, rest, hrest⟩ : ∃ d rest,
      (laterLines name).dropWhile (fun c ↦ !isSeparator c) = d :: rest := by
    refine List.exists_cons_of_ne_nil fun hnil ↦ ?_
    have hall := List.dropWhile_eq_nil_iff.mp hnil c hmem
    simp [hseparator] at hall
  have hd : isSeparator d = true := by
    have hhead := List.dropWhile_get_zero_not (fun c ↦ !isSeparator c) (laterLines name)
      (by rw [hrest]; exact Nat.zero_lt_succ _)
    simpa [hrest] using hhead
  have hsplit : withoutPath name =
      (lineEnd name ++ (laterLines name).takeWhile fun c ↦ !isSeparator c) ++ d :: rest := by
    rw [← hrest, List.append_assoc, List.takeWhile_append_dropWhile]
    rfl
  have hreplaced : replaced d = d := if_neg (by simp [(of_isSeparator hd).2.1])
  refine ⟨d, ((rest.filter fun c ↦ !isControl c).map replaced).rdropWhile isSpace, hd, ?_⟩
  have hcleaned : cleaned name =
      trimChars (((withoutPath name).filter fun c ↦ !isControl c).map replaced) := rfl
  rw [hcleaned, hsplit, List.filter_append, List.filter_cons_of_pos
    (by simp [(of_isSeparator hd).1]), List.map_append, List.map_cons, hreplaced,
    trimChars_separator hd, dropWhile_map_replaced]

/-! ### What `sanitizeFilename` returns -/

theorem toList_sanitizeFilename (name : String) :
    (sanitizeFilename name).toList = sliceStart 255
      (if cleaned name.toList = [] then "unnamed".toList else cleaned name.toList) := by
  simp only [sanitizeFilename, String.toList_ofList]
  generalize (if cleaned name.toList = [] then "unnamed".toList else cleaned name.toList) = safe
  split_ifs with hlong
  · rfl
  · exact (sliceStart_of_le (by omega)).symm

theorem sanitizeFilename_length (name : String) :
    1 ≤ unitLength (sanitizeFilename name).toList ∧
      unitLength (sanitizeFilename name).toList ≤ 255 := by
  rw [toList_sanitizeFilename]
  refine ⟨unitLength_pos ?_, unitLength_sliceStart_le 255 _⟩
  refine sliceStart_ne_nil (by decide) ?_
  split_ifs with hempty
  · decide
  · exact hempty

/-- The condition says when the result has no separator. -/
theorem sanitizeFilename_plain_iff (name : String) :
    (∀ c ∈ (sanitizeFilename name).toList, isSeparator c = false) ↔
      SeparatorsCutOff name.toList := by
  rw [toList_sanitizeFilename]
  by_cases hlater : ∀ c ∈ laterLines name.toList, isSeparator c = false
  · refine iff_of_true (fun c hc ↦ ?_) (Or.inl hlater)
    rcases mem_sliceStart hc with hsafe | rfl
    · split_ifs at hsafe with hempty
      · have hunnamed : ∀ d ∈ "unnamed".toList, isSeparator d = false :=
          forall_mem_of_all (by decide)
        exact hunnamed c hsafe
      · exact cleaned_plain hlater c hsafe
    · decide
  · push Not at hlater
    obtain ⟨c, hmem, hseparator⟩ := hlater
    replace hseparator := Bool.eq_true_of_not_eq_false hseparator
    obtain ⟨d, after, hd, hcleaned⟩ := exists_cleaned_eq hmem hseparator
    have hlonger : SeparatorsCutOff name.toList ↔
        255 ≤ unitLength ((kept (lineEnd name.toList ++
          (laterLines name.toList).takeWhile fun c ↦ !isSeparator c)).map replaced) := by
      rw [unitLength_map_replaced]
      refine or_iff_right fun hplain ↦ ?_
      rw [hplain c hmem] at hseparator
      cases hseparator
    rw [hlonger, hcleaned, if_neg (by simp)]
    have hstart : ∀ e ∈ (kept (lineEnd name.toList ++
        (laterLines name.toList).takeWhile fun c ↦ !isSeparator c)).map replaced,
        isSeparator e = false := by
      intro e he
      obtain ⟨original, horiginal, rfl⟩ := List.mem_map.mp he
      rw [isSeparator_replaced]
      have hfrom := (List.mem_filter.mp ((List.dropWhile_suffix _).mem horiginal)).1
      rcases List.mem_append.mp hfrom with hfirst | hnext
      · exact lineEnd_plain name.toList original hfirst
      · simpa using List.mem_takeWhile_imp hnext
    constructor
    · intro hplain
      by_contra hshort
      have hmemd : d ∈ sliceStart 255 ((kept (lineEnd name.toList ++
          (laterLines name.toList).takeWhile fun c ↦ !isSeparator c)).map replaced ++
            d :: after) := by
        rw [sliceStart_append_of_le (by omega), sliceStart, if_neg (by omega),
          if_pos (by rw [(of_isSeparator hd).2.2.2]; omega)]
        simp
      rw [hplain d hmemd] at hd
      cases hd
    · intro hlong e he
      rw [sliceStart_append_of_ge hlong] at he
      rcases mem_sliceStart he with hsafe | rfl
      · exact hstart e hsafe
      · decide

/-- A safe name without white space around it comes back as it is. -/
theorem sanitizeFilename_of_safe {name : String} (hsafe : IsSafe name) (htrim : trim name = name) :
    sanitizeFilename name = name := by
  have hplain : withoutPath name.toList = name.toList :=
    withoutPath_of_plain fun c hc ↦ (hsafe.chars c hc).1
  have hfilter : (name.toList.filter fun c ↦ !isControl c) = name.toList :=
    List.filter_eq_self.mpr fun c hc ↦ by rw [(hsafe.chars c hc).2.1]; rfl
  have hmap : name.toList.map replaced = name.toList := by
    rw [← List.map_id name.toList, List.map_map]
    refine List.map_congr_left fun c hc ↦ if_neg ?_
    rw [id_eq, (hsafe.chars c hc).2.2]
    exact Bool.false_ne_true
  have hcleaned : cleaned name.toList = name.toList := by
    have htrimmed : trimChars name.toList = name.toList := by
      rw [← String.toList_ofList (l := trimChars name.toList)]
      exact congrArg String.toList htrim
    calc cleaned name.toList
        = trimChars (((withoutPath name.toList).filter fun c ↦ !isControl c).map replaced) := rfl
      _ = name.toList := by rw [hplain, hfilter, hmap, htrimmed]
  have hnonempty : name.toList ≠ [] := by
    intro hnil
    have hlength := hsafe.length.1
    rw [hnil] at hlength
    exact absurd hlength (by decide)
  rw [← String.toList_inj, toList_sanitizeFilename, hcleaned, if_neg hnonempty,
    sliceStart_of_le hsafe.length.2]

/-! ### The keys of products -/

/-- Assumes: a name without `/`. The key of a product lies one level below the root's `outputs`. -/
theorem directChild_producedKey {name : String} (h : IsSafe (sanitizeFilename name))
    (root : AbsolutePath) (product : Product) (id : IdStart) :
    DirectChild root "outputs" (producedKey name product id) := by
  rw [producedKey, outputKey_eq]
  refine directChild_of_names root (by decide) (isName_of_mem (dash_mem_component _ _ _ _)
    (by decide) fun hslash ↦ ?_)
  have hplain : ∀ c ∈ (component (sanitizeFilename name) product.suffix product.ext id).toList,
      isSeparator c = false := by
    refine forall_mem_component (fun c hc ↦ (h.chars c hc).1) ?_ ?_ ?_ (by decide) (by decide)
    · cases product <;> exact forall_mem_of_all (by decide)
    · cases product <;> exact forall_mem_of_all (by decide)
    · refine id.forall_mem (fun c hdigit ↦ ?_) (forall_mem_of_all (by decide))
      refine Bool.eq_false_iff.mpr fun hseparator ↦ ?_
      rcases isSeparator_iff.mp hseparator with rfl | rfl
      · exact absurd hdigit (by decide)
      · exact absurd hdigit (by decide)
  exact absurd (hplain '/' hslash) (by decide)

/-- The promise is kept of a name exactly when no separator behind a line break survives. -/
theorem sanitises_iff (name : String) : Sanitises name ↔ SeparatorsCutOff name.toList := by
  rw [← sanitizeFilename_plain_iff]
  constructor
  · exact fun h c hc ↦ (h.safe.chars c hc).1
  · intro hplain
    have hsafe : IsSafe (sanitizeFilename name) :=
      ⟨sanitizeFilename_length name, fun c hc ↦ ⟨hplain c hc, mem_sanitizeFilename hc⟩⟩
    exact ⟨hsafe, fun root product id ↦ directChild_producedKey hsafe root product id,
      sanitizeFilename_of_safe⟩

/-- A line break in front of the separator hides it from the removal of the path. -/
theorem not_forall_sanitises : ¬ ∀ name, Sanitises name := by
  intro h
  have hslash := ((h "a\n/b").safe.chars '/' (by decide)).1
  exact absurd hslash (by decide)

end FileForge.Files.SafeNames
