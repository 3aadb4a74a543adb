import FileForge.Foundation.EcmaText

/-!
# `toLowerCase`

The lower case of every Unicode character, as ECMAScript maps a text: character by character, by the
table of simple mappings (`caseRanges`, Unicode 17), with two exceptions. The capital I with a dot
becomes two characters, and a capital sigma at the end of a word has a form of its own. Whether a
sigma stands there is a matter of the characters around it; that rule is a parameter here (`final`).

The capital I with a dot is the only character whose lower case is longer than itself
(`unitLength_lowered`), and what is below `a` comes from itself only (`mem_lowerFrom`): no mapping
makes a dot or a slash.
-/

set_option autoImplicit false
set_option relaxedAutoImplicit false

namespace FileForge.Foundation.CaseMapping

open EcmaText

/-! ### The mapping -/

/-- Every `stride`th character from `first` to `last` is mapped to the one at a distance. -/
structure CaseRange where
  first : ℕ
  last : ℕ
  stride : ℕ
  offset : ℤ
  deriving DecidableEq

def CaseRange.covers (range : CaseRange) (code : ℕ) : Bool :=
  range.first ≤ code && code ≤ range.last && (code - range.first) % range.stride = 0

def caseRanges : List CaseRange :=
  [⟨0x41, 0x5A, 1, 32⟩, ⟨0xC0, 0xD6, 1, 32⟩, ⟨0xD8, 0xDE, 1, 32⟩, ⟨0x100, 0x12E, 2, 1⟩,
    ⟨0x132, 0x136, 2, 1⟩, ⟨0x139, 0x147, 2, 1⟩, ⟨0x14A, 0x176, 2, 1⟩, ⟨0x178, 0x178, 1, -121⟩,
    ⟨0x179, 0x17D, 2, 1⟩, ⟨0x181, 0x181, 1, 210⟩, ⟨0x182, 0x184, 2, 1⟩, ⟨0x186, 0x186, 1, 206⟩,
    ⟨0x187, 0x187, 1, 1⟩, ⟨0x189, 0x18A, 1, 205⟩, ⟨0x18B, 0x18B, 1, 1⟩, ⟨0x18E, 0x18E, 1, 79⟩,
    ⟨0x18F, 0x18F, 1, 202⟩, ⟨0x190, 0x190, 1, 203⟩, ⟨0x191, 0x191, 1, 1⟩, ⟨0x193, 0x193, 1, 205⟩,
    ⟨0x194, 0x194, 1, 207⟩, ⟨0x196, 0x196, 1, 211⟩, ⟨0x197, 0x197, 1, 209⟩, ⟨0x198, 0x198, 1, 1⟩,
    ⟨0x19C, 0x19C, 1, 211⟩, ⟨0x19D, 0x19D, 1, 213⟩, ⟨0x19F, 0x19F, 1, 214⟩, ⟨0x1A0, 0x1A4, 2, 1⟩,
    ⟨0x1A6, 0x1A6, 1, 218⟩, ⟨0x1A7, 0x1A7, 1, 1⟩, ⟨0x1A9, 0x1A9, 1, 218⟩, ⟨0x1AC, 0x1AC, 1, 1⟩,
    ⟨0x1AE, 0x1AE, 1, 218⟩, ⟨0x1AF, 0x1AF, 1, 1⟩, ⟨0x1B1, 0x1B2, 1, 217⟩, ⟨0x1B3, 0x1B5, 2, 1⟩,
    ⟨0x1B7, 0x1B7, 1, 219⟩, ⟨0x1B8, 0x1B8, 1, 1⟩, ⟨0x1BC, 0x1BC, 1, 1⟩, ⟨0x1C4, 0x1C4, 1, 2⟩,
    ⟨0x1C5, 0x1C5, 1, 1⟩, ⟨0x1C7, 0x1C7, 1, 2⟩, ⟨0x1C8, 0x1C8, 1, 1⟩, ⟨0x1CA, 0x1CA, 1, 2⟩,
    ⟨0x1CB, 0x1DB, 2, 1⟩, ⟨0x1DE, 0x1EE, 2, 1⟩, ⟨0x1F1, 0x1F1, 1, 2⟩, ⟨0x1F2, 0x1F4, 2, 1⟩,
    ⟨0x1F6, 0x1F6, 1, -97⟩, ⟨0x1F7, 0x1F7, 1, -56⟩, ⟨0x1F8, 0x21E, 2, 1⟩, ⟨0x220, 0x220, 1, -130⟩,
    ⟨0x222, 0x232, 2, 1⟩, ⟨0x23A, 0x23A, 1, 10795⟩, ⟨0x23B, 0x23B, 1, 1⟩, ⟨0x23D, 0x23D, 1, -163⟩,
    ⟨0x23E, 0x23E, 1, 10792⟩, ⟨0x241, 0x241, 1, 1⟩, ⟨0x243, 0x243, 1, -195⟩, ⟨0x244, 0x244, 1, 69⟩,
    ⟨0x245, 0x245, 1, 71⟩, ⟨0x246, 0x24E, 2, 1⟩, ⟨0x370, 0x372, 2, 1⟩, ⟨0x376, 0x376, 1, 1⟩,
    ⟨0x37F, 0x37F, 1, 116⟩, ⟨0x386, 0x386, 1, 38⟩, ⟨0x388, 0x38A, 1, 37⟩, ⟨0x38C, 0x38C, 1, 64⟩,
    ⟨0x38E, 0x38F, 1, 63⟩, ⟨0x391, 0x3A1, 1, 32⟩, ⟨0x3A3, 0x3AB, 1, 32⟩, ⟨0x3CF, 0x3CF, 1, 8⟩,
    ⟨0x3D8, 0x3EE, 2, 1⟩, ⟨0x3F4, 0x3F4, 1, -60⟩, ⟨0x3F7, 0x3F7, 1, 1⟩, ⟨0x3F9, 0x3F9, 1, -7⟩,
    ⟨0x3FA, 0x3FA, 1, 1⟩, ⟨0x3FD, 0x3FF, 1, -130⟩, ⟨0x400, 0x40F, 1, 80⟩, ⟨0x410, 0x42F, 1, 32⟩,
    ⟨0x460, 0x480, 2, 1⟩, ⟨0x48A, 0x4BE, 2, 1⟩, ⟨0x4C0, 0x4C0, 1, 15⟩, ⟨0x4C1, 0x4CD, 2, 1⟩,
    ⟨0x4D0, 0x52E, 2, 1⟩, ⟨0x531, 0x556, 1, 48⟩, ⟨0x10A0, 0x10C5, 1, 7264⟩,
    ⟨0x10C7, 0x10C7, 1, 7264⟩, ⟨0x10CD, 0x10CD, 1, 7264⟩, ⟨0x13A0, 0x13EF, 1, 38864⟩,
    ⟨0x13F0, 0x13F5, 1, 8⟩, ⟨0x1C89, 0x1C89, 1, 1⟩, ⟨0x1C90, 0x1CBA, 1, -3008⟩,
    ⟨0x1CBD, 0x1CBF, 1, -3008⟩, ⟨0x1E00, 0x1E94, 2, 1⟩, ⟨0x1E9E, 0x1E9E, 1, -7615⟩,
    ⟨0x1EA0, 0x1EFE, 2, 1⟩, ⟨0x1F08, 0x1F0F, 1, -8⟩, ⟨0x1F18, 0x1F1D, 1, -8⟩,
    ⟨0x1F28, 0x1F2F, 1, -8⟩, ⟨0x1F38, 0x1F3F, 1, -8⟩, ⟨0x1F48, 0x1F4D, 1, -8⟩,
    ⟨0x1F59, 0x1F5F, 2, -8⟩, ⟨0x1F68, 0x1F6F, 1, -8⟩, ⟨0x1F88, 0x1F8F, 1, -8⟩,
    ⟨0x1F98, 0x1F9F, 1, -8⟩, ⟨0x1FA8, 0x1FAF, 1, -8⟩, ⟨0x1FB8, 0x1FB9, 1, -8⟩,
    ⟨0x1FBA, 0x1FBB, 1, -74⟩, ⟨0x1FBC, 0x1FBC, 1, -9⟩, ⟨0x1FC8, 0x1FCB, 1, -86⟩,
    ⟨0x1FCC, 0x1FCC, 1, -9⟩, ⟨0x1FD8, 0x1FD9, 1, -8⟩, ⟨0x1FDA, 0x1FDB, 1, -100⟩,
    ⟨0x1FE8, 0x1FE9, 1, -8⟩, ⟨0x1FEA, 0x1FEB, 1, -112⟩, ⟨0x1FEC, 0x1FEC, 1, -7⟩,
    ⟨0x1FF8, 0x1FF9, 1, -128⟩, ⟨0x1FFA, 0x1FFB, 1, -126⟩, ⟨0x1FFC, 0x1FFC, 1, -9⟩,
    ⟨0x2126, 0x2126, 1, -7517⟩, ⟨0x212A, 0x212A, 1, -8383⟩, ⟨0x212B, 0x212B, 1, -8262⟩,
    ⟨0x2132, 0x2132, 1, 28⟩, ⟨0x2160, 0x216F, 1, 16⟩, ⟨0x2183, 0x2183, 1, 1⟩,
    ⟨0x24B6, 0x24CF, 1, 26⟩, ⟨0x2C00, 0x2C2F, 1, 48⟩, ⟨0x2C60, 0x2C60, 1, 1⟩,
    ⟨0x2C62, 0x2C62, 1, -10743⟩, ⟨0x2C63, 0x2C63, 1, -3814⟩, ⟨0x2C64, 0x2C64, 1, -10727⟩,
    ⟨0x2C67, 0x2C6B, 2, 1⟩, ⟨0x2C6D, 0x2C6D, 1, -10780⟩, ⟨0x2C6E, 0x2C6E, 1, -10749⟩,
    ⟨0x2C6F, 0x2C6F, 1, -10783⟩, ⟨0x2C70, 0x2C70, 1, -10782⟩, ⟨0x2C72, 0x2C72, 1, 1⟩,
    ⟨0x2C75, 0x2C75, 1, 1⟩, ⟨0x2C7E, 0x2C7F, 1, -10815⟩, ⟨0x2C80, 0x2CE2, 2, 1⟩,
    ⟨0x2CEB, 0x2CED, 2, 1⟩, ⟨0x2CF2, 0x2CF2, 1, 1⟩, ⟨0xA640, 0xA66C, 2, 1⟩, ⟨0xA680, 0xA69A, 2, 1⟩,
    ⟨0xA722, 0xA72E, 2, 1⟩, ⟨0xA732, 0xA76E, 2, 1⟩, ⟨0xA779, 0xA77B, 2, 1⟩,
    ⟨0xA77D, 0xA77D, 1, -35332⟩, ⟨0xA77E, 0xA786, 2, 1⟩, ⟨0xA78B, 0xA78B, 1, 1⟩,
    ⟨0xA78D, 0xA78D, 1, -42280⟩, ⟨0xA790, 0xA792, 2, 1⟩, ⟨0xA796, 0xA7A8, 2, 1⟩,
    ⟨0xA7AA, 0xA7AA, 1, -42308⟩, ⟨0xA7AB, 0xA7AB, 1, -42319⟩, ⟨0xA7AC, 0xA7AC, 1, -42315⟩,
    ⟨0xA7AD, 0xA7AD, 1, -42305⟩, ⟨0xA7AE, 0xA7AE, 1, -42308⟩, ⟨0xA7B0, 0xA7B0, 1, -42258⟩,
    ⟨0xA7B1, 0xA7B1, 1, -42282⟩, ⟨0xA7B2, 0xA7B2, 1, -42261⟩, ⟨0xA7B3, 0xA7B3, 1, 928⟩,
    ⟨0xA7B4, 0xA7C2, 2, 1⟩, ⟨0xA7C4, 0xA7C4, 1, -48⟩, ⟨0xA7C5, 0xA7C5, 1, -42307⟩,
    ⟨0xA7C6, 0xA7C6, 1, -35384⟩, ⟨0xA7C7, 0xA7C9, 2, 1⟩, ⟨0xA7CB, 0xA7CB, 1, -42343⟩,
    ⟨0xA7CC, 0xA7DA, 2, 1⟩, ⟨0xA7DC, 0xA7DC, 1, -42561⟩, ⟨0xA7F5, 0xA7F5, 1, 1⟩,
    ⟨0xFF21, 0xFF3A, 1, 32⟩, ⟨0x10400, 0x10427, 1, 40⟩, ⟨0x104B0, 0x104D3, 1, 40⟩,
    ⟨0x10570, 0x1057A, 1, 39⟩, ⟨0x1057C, 0x1058A, 1, 39⟩, ⟨0x1058C, 0x10592, 1, 39⟩,
    ⟨0x10594, 0x10595, 1, 39⟩, ⟨0x10C80, 0x10CB2, 1, 64⟩, ⟨0x10D50, 0x10D65, 1, 32⟩,
    ⟨0x118A0, 0x118BF, 1, 32⟩, ⟨0x16E40, 0x16E5F, 1, 32⟩, ⟨0x16EA0, 0x16EB8, 1, 27⟩,
    ⟨0x1E900, 0x1E921, 1, 34⟩]

/-- The simple lower case of a code point. -/
def lowerCode (code : ℕ) : ℕ :=
  match caseRanges.find? fun range ↦ range.covers code with
  | some range => (code + range.offset).toNat
  | none => code

def lowerChar (c : Char) : Char := Char.ofNat (lowerCode c.toNat)

/-- `İ`. -/
def dottedI : Char := Char.ofNat 0x130

/-- `Σ`. -/
def sigma : Char := Char.ofNat 0x3A3

/-- A character, given whether a sigma would be final in its place. -/
def lowered (isFinal : Bool) (c : Char) : List Char :=
  if c = dottedI then ['i', Char.ofNat 0x307]
  else if c = sigma ∧ isFinal = true then [Char.ofNat 0x3C2]
  else [lowerChar c]

/-- The rest of a text behind its start. -/
def lowerFrom (final : List Char → List Char → Bool) (before : List Char) : List Char → List Char
  | [] => []
  | c :: rest => lowered (final before rest) c ++ lowerFrom final (before ++ [c]) rest

def toLowerCase (final : List Char → List Char → Bool) (text : String) : String :=
  String.ofList (lowerFrom final [] text.toList)

/-! ### The table -/

/-- What holds of a range: it begins at a letter, its lower case does not reach below `a` or among
the surrogates, and both sides have the same number of code units. -/
def CaseRange.IsSound (range : CaseRange) : Prop :=
  0x41 ≤ range.first ∧ 0x61 ≤ range.first + range.offset ∧
    (range.last + range.offset < 0xD800 ∨ 0xE000 ≤ range.first + range.offset) ∧
    (range.last < 0x10000 ∧ range.last + range.offset < 0x10000 ∨
      0x10000 ≤ range.first ∧ 0x10000 ≤ range.first + range.offset ∧
        range.last + range.offset < 0x110000)

instance : DecidablePred CaseRange.IsSound := fun _ ↦
  inferInstanceAs (Decidable (_ ∧ _ ∧ (_ ∨ _) ∧ (_ ∧ _ ∨ _ ∧ _ ∧ _)))

theorem isSound_of_mem : ∀ range ∈ caseRanges, range.IsSound := by
  decide +kernel

/-- A code point is its own lower case, or a range moves it. -/
theorem lowerCode_cases (code : ℕ) :
    lowerCode code = code ∨ ∃ range : CaseRange, range.IsSound ∧ range.first ≤ code ∧
      code ≤ range.last ∧ (lowerCode code : ℤ) = code + range.offset := by
  unfold lowerCode
  cases hfind : caseRanges.find? fun range ↦ range.covers code with
  | none => exact Or.inl rfl
  | some range =>
    have hsound := isSound_of_mem range (List.mem_of_find?_eq_some hfind)
    have hcovers := List.find?_some hfind
    simp only [CaseRange.covers, Bool.and_eq_true, decide_eq_true_eq] at hcovers
    obtain ⟨⟨hfirst, hlast⟩, -⟩ := hcovers
    refine Or.inr ⟨range, hsound, hfirst, hlast, Int.toNat_of_nonneg ?_⟩
    have hlow := hsound.2.1
    omega

/-! ### Single characters -/

theorem toNat_lowerChar (c : Char) : (lowerChar c).toNat = lowerCode c.toNat := by
  have hvalid : (lowerCode c.toNat).isValidChar := by
    have hc : c.toNat.isValidChar := c.valid
    rcases lowerCode_cases c.toNat with hsame | ⟨range, hsound, hfirst, hlast, hcode⟩
    · rwa [hsame]
    · obtain ⟨-, -, hsurrogates, hplanes⟩ := hsound
      simp only [Nat.isValidChar] at hc ⊢
      omega
  have hchar : lowerChar c = Char.ofNatAux (lowerCode c.toNat) hvalid := dif_pos hvalid
  rw [hchar]
  rfl

theorem codeUnits_lowerChar (c : Char) : codeUnits (lowerChar c) = codeUnits c := by
  rw [codeUnits, codeUnits, toNat_lowerChar]
  rcases lowerCode_cases c.toNat with hsame | ⟨range, hsound, hfirst, hlast, hcode⟩
  · rw [hsame]
  · obtain ⟨-, -, -, hplanes⟩ := hsound
    have hplane : lowerCode c.toNat < 0x10000 ↔ c.toNat < 0x10000 := by omega
    simp only [hplane]

/-- What is below `a` is the lower case of itself only. -/
theorem eq_of_lowerChar {c : Char} (h : (lowerChar c).toNat < 0x61) : c = lowerChar c := by
  rw [toNat_lowerChar] at h
  rcases lowerCode_cases c.toNat with hsame | ⟨range, hsound, hfirst, hlast, hcode⟩
  · rw [← Char.toNat_inj, toNat_lowerChar, hsame]
  · have hlow := hsound.2.1
    omega

/-- Assumes: a character below `A`. It has no other case. -/
theorem lowered_of_lt {c : Char} (h : c.toNat < 0x41) (isFinal : Bool) :
    lowered isFinal c = [c] := by
  have hdotted : c ≠ dottedI := by
    rintro rfl
    exact absurd h (by decide)
  have hsigma : c ≠ sigma := by
    rintro rfl
    exact absurd h (by decide)
  rw [lowered, if_neg hdotted, if_neg fun hboth ↦ hsigma hboth.1]
  rcases lowerCode_cases c.toNat with hsame | ⟨range, hsound, hfirst, -, -⟩
  · rw [lowerChar, hsame, Char.ofNat_toNat]
  · have hletter := hsound.1
    omega

theorem unitLength_lowered (isFinal : Bool) (c : Char) :
    unitLength (lowered isFinal c) = codeUnits c + if c = dottedI then 1 else 0 := by
  unfold lowered
  split_ifs with hdotted hfinal
  · rw [hdotted]
    rfl
  · rw [hfinal.1]
    rfl
  · rw [unitLength_cons, unitLength_nil, codeUnits_lowerChar]

theorem mem_lowered {isFinal : Bool} {c d : Char} (h : d ∈ lowered isFinal c)
    (hd : d.toNat < 0x61) : d = c := by
  unfold lowered at h
  split_ifs at h with hdotted hfinal
  · have hhigh : ∀ e ∈ ['i', Char.ofNat 0x307], ¬ e.toNat < 0x61 := forall_mem_of_all (by decide)
    exact absurd hd (hhigh d h)
  · rw [List.mem_singleton.mp h] at hd
    exact absurd hd (by decide)
  · rw [List.mem_singleton.mp h] at hd ⊢
    exact (eq_of_lowerChar hd).symm

/-! ### Texts -/

section Texts

variable (final : List Char → List Char → Bool)

theorem lowerFrom_append (before first second : List Char) :
    ∃ start, lowerFrom final before (first ++ second) =
        start ++ lowerFrom final (before ++ first) second ∧
      unitLength start = unitLength first + first.count dottedI := by
  induction first generalizing before with
  | nil => exact ⟨[], by rw [List.append_nil]; rfl, rfl⟩
  | cons c rest ih =>
    obtain ⟨start, hstart, hlength⟩ := ih (before ++ [c])
    refine ⟨lowered (final before (rest ++ second)) c ++ start, ?_, ?_⟩
    · rw [List.cons_append, lowerFrom, hstart, List.append_assoc, List.append_assoc]
      rfl
    · rw [unitLength_append, unitLength_lowered, hlength, unitLength_cons, List.count_cons]
      simp only [beq_iff_eq]
      omega

/-- What is below `a` comes from itself. -/
theorem mem_lowerFrom {before chars : List Char} {d : Char}
    (h : d ∈ lowerFrom final before chars) (hd : d.toNat < 0x61) : d ∈ chars := by
  induction chars generalizing before with
  | nil => exact h
  | cons c rest ih =>
    rcases List.mem_append.mp h with hfirst | hrest
    · rw [mem_lowered hfirst hd]
      exact List.mem_cons_self
    · exact List.mem_cons_of_mem c (ih hrest)

/-- Without a sigma, what surrounds a text does not count. -/
theorem lowerFrom_congr {chars : List Char} (h : sigma ∉ chars) (before other : List Char) :
    lowerFrom final before chars = lowerFrom final other chars := by
  induction chars generalizing before other with
  | nil => rfl
  | cons c rest ih =>
    have hc : c ≠ sigma := fun heq ↦ h (heq ▸ List.mem_cons_self)
    have hlowered : ∀ isFinal, lowered isFinal c = lowered false c := by
      intro isFinal
      rw [lowered, lowered, if_neg fun hboth : c = sigma ∧ isFinal = true ↦ hc hboth.1,
        if_neg fun hboth : c = sigma ∧ false = true ↦ hc hboth.1]
    rw [lowerFrom, lowerFrom, hlowered, hlowered (final other rest),
      ih (fun hmem ↦ h (List.mem_cons_of_mem c hmem))]

/-- A sigma leaves a small one in either form. -/
theorem exists_mem_of_sigma {chars : List Char} (h : sigma ∈ chars) (before : List Char) :
    ∃ d ∈ lowerFrom final before chars, d = Char.ofNat 0x3C2 ∨ d = Char.ofNat 0x3C3 := by
  induction chars generalizing before with
  | nil => exact absurd h List.not_mem_nil
  | cons c rest ih =>
    rcases List.mem_cons.mp h with rfl | hrest
    · cases hfinal : final before rest with
      | true =>
        refine ⟨Char.ofNat 0x3C2, List.mem_append_left _ ?_, Or.inl rfl⟩
        rw [hfinal]
        decide
      | false =>
        refine ⟨Char.ofNat 0x3C3, List.mem_append_left _ ?_, Or.inr rfl⟩
        rw [hfinal]
        decide +kernel
    · obtain ⟨d, hd, hsmall⟩ := ih hrest (before ++ [c])
      exact ⟨d, List.mem_append_right _ hd, hsmall⟩

end Texts

end FileForge.Foundation.CaseMapping
