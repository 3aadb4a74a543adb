import Mathlib.Data.List.DropRight
import Mathlib.Tactic.Common

/-!
# `trim`, `slice`, letters and texts joined at a separator

The characters that ECMAScript counts as white space or as line ends, and `trim`, which removes them
from both ends of a text. A text without such a character stays as it is (`trimChars_of_forall`),
and to strip a text of some of these characters first changes nothing (`trim_strip`). A length counts
UTF-16 units, and `slice` cuts a text at such a count, from either side (`sliceStart_append_of_ge`,
`dropUnits_append`). The case of a letter is one bit of its code (`toNat_toLower`), and what is no
letter keeps it (`eq_of_toLower_eq`).

A text that was joined at a separator comes apart in one way only: at the last separator when the
end has none (`eq_of_last_separator`), and at the first when the start has none
(`eq_of_first_separator`).
-/

set_option autoImplicit false
set_option relaxedAutoImplicit false

namespace FileForge.Foundation.EcmaText

/-- `WhiteSpace` or `LineTerminator`. -/
def isSpace (c : Char) : Bool :=
  (0x9 ≤ c.toNat && c.toNat ≤ 0xD) || (0x2000 ≤ c.toNat && c.toNat ≤ 0x200A) ||
    [0x20, 0xA0, 0x1680, 0x2028, 0x2029, 0x202F, 0x205F, 0x3000, 0xFEFF].contains c.toNat

def trimChars (chars : List Char) : List Char := (chars.dropWhile isSpace).rdropWhile isSpace

def trim (text : String) : String := String.ofList (trimChars text.toList)

/-- A property of the characters of a text, checked one by one. -/
theorem forall_mem_of_all {property : Char → Prop} [DecidablePred property] {chars : List Char}
    (h : (chars.all fun c ↦ property c) = true) : ∀ c ∈ chars, property c :=
  fun c hc ↦ of_decide_eq_true (List.all_eq_true.1 h c hc)

theorem trimChars_of_forall {chars : List Char} (h : ∀ c ∈ chars, isSpace c = false) :
    trimChars chars = chars := by
  have hfirst : chars.dropWhile isSpace = chars := by
    cases chars with
    | nil => rfl
    | cons c rest => rw [List.dropWhile_cons_of_neg (by simp [h c List.mem_cons_self])]
  rw [trimChars, hfirst, List.rdropWhile_eq_self_iff]
  intro hne
  simp [h _ (List.getLast_mem hne)]

/-! ### Other notions of white space -/

/-- The characters of a kind are removed from both ends. -/
def stripChars (space : Char → Bool) (chars : List Char) : List Char :=
  (chars.dropWhile space).rdropWhile space

def strip (space : Char → Bool) (text : String) : String :=
  String.ofList (stripChars space text.toList)

theorem dropWhile_dropWhile {space wider : Char → Bool} (h : ∀ c, space c = true → wider c = true)
    (chars : List Char) : (chars.dropWhile space).dropWhile wider = chars.dropWhile wider := by
  induction chars with
  | nil => rfl
  | cons c rest ih =>
    by_cases hc : space c = true
    · rw [List.dropWhile_cons_of_pos hc, ih, List.dropWhile_cons_of_pos (h c hc)]
    · rw [List.dropWhile_cons_of_neg hc]

theorem rdropWhile_rdropWhile {space wider : Char → Bool}
    (h : ∀ c, space c = true → wider c = true) (chars : List Char) :
    (chars.rdropWhile space).rdropWhile wider = chars.rdropWhile wider := by
  simp only [List.rdropWhile, List.reverse_reverse, dropWhile_dropWhile h]

theorem rdropWhile_cons (space : Char → Bool) (c : Char) (chars : List Char) :
    (c :: chars).rdropWhile space =
      if chars.rdropWhile space = [] ∧ space c = true then [] else c :: chars.rdropWhile space := by
  simp only [List.rdropWhile, List.reverse_cons, List.dropWhile_append, List.reverse_eq_nil_iff]
  cases hrest : chars.reverse.dropWhile space with
  | nil => by_cases hc : space c = true <;> simp [hc]
  | cons d rest => simp

/-- The two ends of a text do not meet: which of them is stripped first makes no difference. -/
theorem dropWhile_rdropWhile {space wider : Char → Bool}
    (h : ∀ c, space c = true → wider c = true) (chars : List Char) :
    (chars.rdropWhile space).dropWhile wider = (chars.dropWhile wider).rdropWhile space := by
  induction chars with
  | nil => rfl
  | cons c rest ih =>
    by_cases hc : wider c = true
    · rw [List.dropWhile_cons_of_pos hc, ← ih, rdropWhile_cons]
      split_ifs with hempty
      · rw [hempty.1]
      · rw [List.dropWhile_cons_of_pos hc]
    · have hspace : ¬ (rest.rdropWhile space = [] ∧ space c = true) := fun hboth ↦
        hc (h c hboth.2)
      rw [List.dropWhile_cons_of_neg hc, rdropWhile_cons, if_neg hspace,
        List.dropWhile_cons_of_neg hc]

/-- Assumes: what is stripped first is white space. -/
theorem trim_strip {space : Char → Bool} (h : ∀ c, space c = true → isSpace c = true)
    (text : String) : trim (strip space text) = trim text := by
  rw [trim, strip, String.toList_ofList, trimChars, stripChars, dropWhile_rdropWhile h,
    rdropWhile_rdropWhile h, dropWhile_dropWhile h, ← trimChars, ← trim]

/-! ### `String.prototype.slice` from the start -/

/-- The UTF-16 code units of a character. -/
def codeUnits (c : Char) : ℕ := if c.toNat < 0x10000 then 1 else 2

/-- The length of a text in code units. -/
def unitLength (chars : List Char) : ℕ := chars.foldr (fun c length ↦ codeUnits c + length) 0

/-- `slice(0, count)`. A surrogate pair that the end cuts in two leaves its first half, which stands
here as the replacement character that it is written as. -/
def sliceStart (count : ℕ) : List Char → List Char
  | [] => []
  | c :: rest =>
    if count = 0 then []
    else if codeUnits c ≤ count then c :: sliceStart (count - codeUnits c) rest
    else ['\uFFFD']

/-- A start of a text has the characters of the text, and the replacement character at most. -/
theorem mem_sliceStart {count : ℕ} {chars : List Char} {c : Char} (h : c ∈ sliceStart count chars) :
    c ∈ chars ∨ c = '\uFFFD' := by
  induction chars generalizing count with
  | nil => exact Or.inl h
  | cons first rest ih =>
    unfold sliceStart at h
    split_ifs at h with hcount hfits
    · exact absurd h List.not_mem_nil
    · rcases List.mem_cons.mp h with rfl | hrest
      · exact Or.inl List.mem_cons_self
      · exact (ih hrest).imp_left (List.mem_cons_of_mem first)
    · exact Or.inr (List.mem_singleton.mp h)

theorem codeUnits_pos (c : Char) : 0 < codeUnits c := by
  unfold codeUnits
  split_ifs <;> decide

@[simp] theorem unitLength_nil : unitLength [] = 0 := rfl

@[simp] theorem unitLength_cons (c : Char) (rest : List Char) :
    unitLength (c :: rest) = codeUnits c + unitLength rest := rfl

@[simp] theorem unitLength_append (first second : List Char) :
    unitLength (first ++ second) = unitLength first + unitLength second := by
  induction first with
  | nil => simp
  | cons c rest ih => simp [ih, Nat.add_assoc]

theorem unitLength_pos {chars : List Char} (h : chars ≠ []) : 0 < unitLength chars := by
  cases chars with
  | nil => exact absurd rfl h
  | cons c rest => exact Nat.add_pos_left (codeUnits_pos c) _

theorem unitLength_sliceStart_le (count : ℕ) (chars : List Char) :
    unitLength (sliceStart count chars) ≤ count := by
  induction chars generalizing count with
  | nil => exact Nat.zero_le count
  | cons c rest ih =>
    unfold sliceStart
    split_ifs with hcount hfits
    · exact Nat.zero_le count
    · have hrest := ih (count - codeUnits c)
      rw [unitLength_cons]
      omega
    · exact Nat.pos_of_ne_zero hcount

theorem sliceStart_ne_nil {count : ℕ} {chars : List Char} (hcount : 0 < count) (h : chars ≠ []) :
    sliceStart count chars ≠ [] := by
  cases chars with
  | nil => exact absurd rfl h
  | cons c rest =>
    rw [sliceStart, if_neg hcount.ne']
    split_ifs
    · exact List.cons_ne_nil c _
    · exact List.cons_ne_nil _ []

/-- A slice that begins within a text keeps the text before it. -/
theorem sliceStart_append_of_le {count : ℕ} {first : List Char} (h : unitLength first ≤ count)
    (second : List Char) :
    sliceStart count (first ++ second) =
      first ++ sliceStart (count - unitLength first) second := by
  induction first generalizing count with
  | nil => rfl
  | cons c rest ih =>
    rw [unitLength_cons] at h
    have hpos := codeUnits_pos c
    rw [List.cons_append, sliceStart, if_neg (by omega), if_pos (by omega), ih (by omega),
      unitLength_cons, Nat.sub_sub, List.cons_append]

/-- A slice that ends within a text does not see what follows. -/
theorem sliceStart_append_of_ge {count : ℕ} {first : List Char} (h : count ≤ unitLength first)
    (second : List Char) : sliceStart count (first ++ second) = sliceStart count first := by
  induction first generalizing count with
  | nil =>
    obtain rfl := Nat.le_zero.mp h
    cases second <;> rfl
  | cons c rest ih =>
    rw [unitLength_cons] at h
    rw [List.cons_append, sliceStart, sliceStart, ih (by omega)]

theorem sliceStart_of_le {count : ℕ} {chars : List Char} (h : unitLength chars ≤ count) :
    sliceStart count chars = chars := by
  have hslice := sliceStart_append_of_le h []
  rwa [List.append_nil, sliceStart, List.append_nil] at hslice

/-! ### `lastIndexOf`, and `slice` to the end -/

/-- The code units behind the first ones. Of a surrogate pair that the cut divides the second half
is left, as the replacement character. -/
def dropUnits (count : ℕ) : List Char → List Char
  | [] => []
  | c :: rest =>
    if count = 0 then c :: rest
    else if codeUnits c ≤ count then dropUnits (count - codeUnits c) rest
    else '\uFFFD' :: rest

/-- `slice(start)`: a negative start counts from the end. -/
def sliceFrom (start : ℤ) (chars : List Char) : List Char :=
  dropUnits (if start < 0 then unitLength chars + start else start).toNat chars

/-- `lastIndexOf` of a character of one code unit, -1 when there is none. -/
def lastIndexOf (c : Char) (chars : List Char) : ℤ :=
  if c ∈ chars then unitLength ((chars.reverse.dropWhile (· ≠ c)).drop 1).reverse else -1

theorem codeUnits_le (c : Char) : codeUnits c ≤ 2 := by
  unfold codeUnits
  split_ifs <;> decide

theorem unitLength_dropUnits (count : ℕ) (chars : List Char) :
    unitLength (dropUnits count chars) = unitLength chars - count := by
  induction chars generalizing count with
  | nil => exact (Nat.zero_sub count).symm
  | cons c rest ih =>
    have hpos := codeUnits_pos c
    have hpair := codeUnits_le c
    have hhalf : codeUnits '\uFFFD' = 1 := rfl
    unfold dropUnits
    split_ifs with hcount hfits
    · rw [hcount, Nat.sub_zero]
    · rw [ih, unitLength_cons]
      omega
    · rw [unitLength_cons, unitLength_cons, hhalf]
      omega

theorem dropUnits_zero (chars : List Char) : dropUnits 0 chars = chars := by
  cases chars <;> rfl

/-- A cut that lies within a text leaves something of it. -/
theorem exists_dropUnits_append {count : ℕ} {first : List Char} (h : count < unitLength first)
    (second : List Char) :
    ∃ rest, rest ≠ [] ∧ dropUnits count (first ++ second) = rest ++ second := by
  induction first generalizing count with
  | nil => exact absurd h (Nat.not_lt_zero count)
  | cons c rest ih =>
    rw [unitLength_cons] at h
    rw [List.cons_append, dropUnits]
    split_ifs with hcount hfits
    · exact ⟨c :: rest, List.cons_ne_nil c rest, rfl⟩
    · exact ih (by omega)
    · exact ⟨'\uFFFD' :: rest, List.cons_ne_nil _ rest, rfl⟩

theorem dropUnits_append (first second : List Char) :
    dropUnits (unitLength first) (first ++ second) = second := by
  induction first with
  | nil => exact dropUnits_zero second
  | cons c rest ih =>
    have hpos := codeUnits_pos c
    rw [unitLength_cons, List.cons_append, dropUnits, if_neg (by omega), if_pos (by omega),
      Nat.add_sub_cancel_left, ih]

theorem lastIndexOf_append {c : Char} {after : List Char} (h : c ∉ after) (before : List Char) :
    lastIndexOf c (before ++ c :: after) = unitLength before := by
  have hbehind : ∀ d ∈ after.reverse, decide (d ≠ c) = true := by
    intro d hd
    refine decide_eq_true ?_
    rintro rfl
    exact h (List.mem_reverse.mp hd)
  rw [lastIndexOf, if_pos (by simp), List.reverse_append, List.reverse_cons, List.append_assoc,
    List.dropWhile_append_of_pos hbehind, List.singleton_append,
    List.dropWhile_cons_of_neg (by simp), List.drop_succ_cons, List.drop_zero, List.reverse_reverse]

theorem mem_of_mem_trimChars {chars : List Char} {c : Char} (h : c ∈ trimChars chars) :
    c ∈ chars :=
  (List.dropWhile_suffix isSpace).mem ((List.rdropWhile_prefix isSpace _).mem h)

/-! ### Letters -/

theorem isUpper_iff_toNat {c : Char} : c.isUpper = true ↔ 65 ≤ c.toNat ∧ c.toNat ≤ 90 :=
  decide_eq_true_iff

theorem isLower_iff_toNat {c : Char} : c.isLower = true ↔ 97 ≤ c.toNat ∧ c.toNat ≤ 122 := by
  show (decide (97 ≤ c.toNat) && decide (c.toNat ≤ 122)) = true ↔ _
  rw [Bool.and_eq_true, decide_eq_true_iff, decide_eq_true_iff]

theorem toLower_of_not_isUpper {c : Char} (h : ¬ c.isUpper = true) : c.toLower = c :=
  dif_neg fun hrange ↦ h (isUpper_iff_toNat.mpr hrange)

/-- The case of a letter is one bit of its code. -/
theorem toNat_toLower {c : Char} (h : c.isUpper = true) : c.toLower.toNat = c.toNat + 32 := by
  have hrange := isUpper_iff_toNat.mp h
  have hlower : c.toLower.val = c.val + 32 := congrArg Char.val (dif_pos hrange)
  have hoffset : (32 : UInt32).toNat = 32 := rfl
  rw [← Char.toNat_val, hlower, UInt32.toNat_add, hoffset, Char.toNat_val]
  exact Nat.mod_eq_of_lt (by omega)

/-- A character that is no letter comes from itself only. -/
theorem eq_of_toLower_eq {c d : Char} (hd : d.isLower = false) (h : c.toLower = d) : c = d := by
  by_cases hupper : c.isUpper = true
  · have hrange := isUpper_iff_toNat.mp hupper
    have hcode : d.toNat = c.toNat + 32 := by
      rw [← h, toNat_toLower hupper]
    have hlower : d.isLower = true := isLower_iff_toNat.mpr (by omega)
    rw [hd] at hlower
    cases hlower
  · rw [← h, toLower_of_not_isUpper hupper]

theorem utf8Size_eq_one_iff_toNat {c : Char} : c.utf8Size = 1 ↔ c.toNat ≤ 127 :=
  Char.utf8Size_eq_one_iff

/-- A letter of either case has one byte. -/
theorem utf8Size_toLower (c : Char) : c.toLower.utf8Size = c.utf8Size := by
  by_cases hupper : c.isUpper = true
  · have hrange := isUpper_iff_toNat.mp hupper
    have hcode := toNat_toLower hupper
    rw [utf8Size_eq_one_iff_toNat.mpr (by omega), utf8Size_eq_one_iff_toNat.mpr (by omega)]
  · rw [toLower_of_not_isUpper hupper]

/-! ### Texts joined at a separator -/

/-- A text that ends at the last separator of two equal texts is the same in both. -/
theorem eq_of_last_separator {separator : Char} {left right first second : List Char}
    (hfirst : separator ∉ first) (hsecond : separator ∉ second)
    (h : left ++ separator :: first = right ++ separator :: second) :
    left = right ∧ first = second := by
  rcases List.append_eq_append_iff.mp h with ⟨middle, hright, htail⟩ | ⟨middle, hleft, htail⟩
  · cases middle with
    | nil => exact ⟨by rw [hright, List.append_nil], (List.cons.inj htail).2⟩
    | cons c rest =>
      refine absurd ?_ hfirst
      rw [(List.cons.inj htail).2]
      simp
  · cases middle with
    | nil => exact ⟨by rw [hleft, List.append_nil], (List.cons.inj htail).2.symm⟩
    | cons c rest =>
      refine absurd ?_ hsecond
      rw [(List.cons.inj htail).2]
      simp

/-- A text that begins up to the first separator of two equal texts is the same in both. -/
theorem eq_of_first_separator {separator : Char} {first second left right : List Char}
    (hfirst : separator ∉ first) (hsecond : separator ∉ second)
    (h : first ++ separator :: left = second ++ separator :: right) :
    first = second ∧ left = right := by
  have hreverse : left.reverse ++ separator :: first.reverse =
      right.reverse ++ separator :: second.reverse := by
    have hmirror := congrArg List.reverse h
    simpa only [List.reverse_append, List.reverse_cons, List.append_assoc, List.singleton_append]
      using hmirror
  obtain ⟨hrest, hstart⟩ := eq_of_last_separator (List.mem_reverse.not.mpr hfirst)
    (List.mem_reverse.not.mpr hsecond) hreverse
  exact ⟨List.reverse_injective hstart, List.reverse_injective hrest⟩

end FileForge.Foundation.EcmaText
