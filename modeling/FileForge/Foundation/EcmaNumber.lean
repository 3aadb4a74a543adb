import FileForge.Foundation.Binary64
import FileForge.Foundation.EcmaText
import Mathlib.Data.Nat.Log
import Mathlib.Data.Nat.Prime.Basic
import Mathlib.Tactic.FieldSimp

/-!
# Numbers of ECMAScript and their texts

A number is a finite double, an infinity or `NaN`; the two zeros are one value here, as they are for
`===` and in every text. `ofText` is `Number(text)` and `toText` is the text of a number in a
template: the shortest significand that reads back as the number, the closest one of several, and
the decimal point or the exponent where the specification puts them.

`ofText_toText` is the round trip for every number, so that two numbers of one text are equal
(`toText_injective`). The round trip rests on the search alone: what it returns has been read back
(`rounded_shortest`).

Numbers of ordinary magnitude are written without an exponent (`toChars_plain`), and
`floor_ofRat_div` is integer division by way of a rounded quotient.
-/

set_option autoImplicit false
set_option relaxedAutoImplicit false

namespace FileForge.Foundation.EcmaNumber

open Binary64 EcmaText

/-! ### Numbers -/

/-- A finite double. -/
structure Double where
  value : ℚ
  representable : Representable value

@[ext] theorem Double.ext {first second : Double} (h : first.value = second.value) :
    first = second := by
  cases first
  cases second
  cases h
  rfl

/-- A number; the zeros are one. -/
inductive JsNumber
  | nan
  | posInf
  | negInf
  | finite (double : Double)

/-- The number that a rational is rounded to. -/
def ofRat (q : ℚ) : JsNumber :=
  if h : |rounded q| < 2 ^ 1024 then .finite ⟨rounded q, representable_rounded h⟩
  else if 0 < q then .posInf
  else .negInf

/-- An integer that a double holds exactly. -/
def Double.ofInt (n : ℤ) (h : |n| ≤ 2 ^ 53) : Double := ⟨n, representable_intCast h⟩

namespace JsNumber

def neg : JsNumber → JsNumber
  | nan => nan
  | posInf => negInf
  | negInf => posInf
  | finite double => finite ⟨-double.value, double.representable.neg⟩

def add : JsNumber → JsNumber → JsNumber
  | nan, _ | _, nan | posInf, negInf | negInf, posInf => nan
  | posInf, _ | _, posInf => posInf
  | negInf, _ | _, negInf => negInf
  | finite first, finite second => ofRat (first.value + second.value)

/-- The sign of a number, 0 for NaN. -/
def sign : JsNumber → ℤ
  | nan => 0
  | posInf => 1
  | negInf => -1
  | finite double => if 0 < double.value then 1 else if double.value < 0 then -1 else 0

/-- `*`. With an infinity only the signs count. -/
def mul : JsNumber → JsNumber → JsNumber
  | finite first, finite second => ofRat (first.value * second.value)
  | first, second =>
    if 0 < first.sign * second.sign then posInf
    else if first.sign * second.sign < 0 then negInf
    else nan

/-- `Math.floor`. -/
def floor : JsNumber → JsNumber
  | finite double => ofRat ⌊double.value⌋
  | number => number

/-- `<`. -/
def lt : JsNumber → JsNumber → Bool
  | nan, _ | _, nan | posInf, _ | _, negInf => false
  | negInf, _ | _, posInf => true
  | finite first, finite second => first.value < second.value

/-- `Number.isFinite`. -/
def isFinite : JsNumber → Bool
  | finite _ => true
  | _ => false

end JsNumber

/-- A number that rounds to a double. -/
theorem ofRat_eq_finite {q : ℚ} {double : Double} (h : rounded q = double.value) :
    ofRat q = .finite double := by
  obtain ⟨significand, exponent, -, -, -, hbound⟩ := double.representable
  rw [← h] at hbound
  rw [ofRat, dif_pos hbound]
  exact congrArg JsNumber.finite (Double.ext h)

@[simp] theorem ofRat_value (double : Double) : ofRat double.value = .finite double :=
  ofRat_eq_finite (rounded_of_representable double.representable)

theorem ofRat_intCast {n : ℤ} (h : |n| ≤ 2 ^ 53) : ofRat n = .finite (Double.ofInt n h) :=
  ofRat_value (Double.ofInt n h)

/-- A number far below the overflow threshold is rounded to a double near it. -/
theorem exists_ofRat_eq {q : ℚ} (h : |q| ≤ 2 ^ 100) :
    ∃ double, ofRat q = .finite double ∧ |double.value - q| ≤ |q| / 2 ^ 53 + 1 := by
  have htiny : (2 : ℚ) ^ (-1075 : ℤ) ≤ 1 := zpow_le_one_of_nonpos₀ (by norm_num) (by norm_num)
  have hnear : |rounded q - q| ≤ |q| / 2 ^ 53 + 1 :=
    (abs_rounded_sub_le q).trans (by linarith)
  have hquotient : |q| / 2 ^ 53 ≤ |q| := div_le_self (abs_nonneg q) (by norm_num)
  have hbound : |rounded q| < 2 ^ 1024 := by
    have htriangle : |rounded q| ≤ |rounded q - q| + |q| := by
      have hsum := abs_add_le (rounded q - q) q
      rwa [sub_add_cancel] at hsum
    have hsafe : |rounded q| < 2 ^ 102 := by
      norm_num at h ⊢
      linarith
    exact hsafe.trans (pow_lt_pow_right₀ (by norm_num) (by norm_num))
  refine ⟨⟨rounded q, representable_rounded hbound⟩, ?_, hnear⟩
  rw [ofRat, dif_pos hbound]

/-- Rounding does not change which number is the greater one. -/
theorem lt_ofRat_of_le {p q : ℚ} (hp : 0 ≤ p) (h : p ≤ q) : (ofRat q).lt (ofRat p) = false := by
  have hround := rounded_mono hp h
  have habsp : |rounded p| = rounded p := abs_of_nonneg (rounded_nonneg hp)
  have habsq : |rounded q| = rounded q := abs_of_nonneg (rounded_nonneg (hp.trans h))
  by_cases hfinite : rounded q < 2 ^ 1024
  · rw [ofRat, ofRat, dif_pos (by rwa [habsq]),
      dif_pos (by rw [habsp]; exact hround.trans_lt hfinite)]
    exact decide_eq_false (not_lt.mpr hround)
  · have hpos : 0 < q := by
      refine lt_of_le_of_ne (hp.trans h) fun hzero ↦ hfinite ?_
      rw [← hzero, rounded_of_integral (q := 0) (n := 0) (by simp)]
      positivity
    rw [ofRat, dif_neg (by rwa [habsq]), if_pos hpos]
    cases ofRat p <;> rfl

/-! ### Reading a text -/

/-- The digits of a radix: `0` to `9` and letters of either case. -/
def digitOf (radix : ℕ) (c : Char) : Option ℕ :=
  let digit :=
    if c.isDigit then some (c.toNat - '0'.toNat)
    else if c.isAlpha then some (c.toLower.toNat - 'a'.toNat + 10)
    else none
  digit.filter (· < radix)

/-- At least one digit of a radix. -/
def readRadix (radix : ℕ) (chars : List Char) : Option ℕ :=
  if chars = [] then none
  else chars.foldlM (fun value c ↦ (digitOf radix c).map (radix * value + ·)) 0

/-- The radix of a literal with a prefix, and what follows the prefix. -/
def radixPrefix : List Char → Option (ℕ × List Char)
  | '0' :: c :: rest =>
    if c = 'x' ∨ c = 'X' then some (16, rest)
    else if c = 'o' ∨ c = 'O' then some (8, rest)
    else if c = 'b' ∨ c = 'B' then some (2, rest)
    else none
  | _ => none

/-- At least one decimal digit, and nothing else. -/
def readDigits (chars : List Char) : Option ℕ :=
  if chars ≠ [] ∧ chars.all Char.isDigit then some (Nat.ofDigitChars 10 chars 0) else none

/-- The exponent part of a decimal literal, 0 when there is none. -/
def readExponent : List Char → Option ℤ
  | [] => some 0
  | c :: rest =>
    if c = 'e' ∨ c = 'E' then
      match rest with
      | '+' :: digits => (readDigits digits).map fun power : ℕ ↦ (power : ℤ)
      | '-' :: digits => (readDigits digits).map fun power : ℕ ↦ -(power : ℤ)
      | digits => (readDigits digits).map fun power : ℕ ↦ (power : ℤ)
    else none

/-- The digits before the point and those after it, and the exponent part: the value. -/
def decimalValue (whole fraction exponentPart : List Char) : Option ℚ :=
  if whole = [] ∧ fraction = [] then none
  else (readExponent exponentPart).map fun power : ℤ ↦
    (Nat.ofDigitChars 10 (whole ++ fraction) 0 : ℚ) * 10 ^ (power - fraction.length)

/-- The exact value of an unsigned decimal literal. -/
def readDecimal (chars : List Char) : Option ℚ :=
  match chars.dropWhile Char.isDigit with
  | '.' :: rest =>
    decimalValue (chars.takeWhile Char.isDigit) (rest.takeWhile Char.isDigit)
      (rest.dropWhile Char.isDigit)
  | rest => decimalValue (chars.takeWhile Char.isDigit) [] rest

/-- `Infinity` -/
def infinityChars : List Char := ['I', 'n', 'f', 'i', 'n', 'i', 't', 'y']

def readUnsigned (chars : List Char) : JsNumber :=
  if chars = infinityChars then .posInf else (readDecimal chars).elim .nan ofRat

/-- A decimal literal with or without a sign. -/
def readSigned : List Char → JsNumber
  | '+' :: rest => readUnsigned rest
  | '-' :: rest => (readUnsigned rest).neg
  | chars => readUnsigned chars

/-- A literal without white space around it. -/
def ofChars (chars : List Char) : JsNumber :=
  if chars = [] then ofRat 0
  else match radixPrefix chars with
    | some (radix, digits) => (readRadix radix digits).elim .nan fun value ↦ ofRat value
    | none => readSigned chars

/-- `Number(text)`. -/
def ofText (text : String) : JsNumber := ofChars (trimChars text.toList)

/-! ### Writing a number -/

/-- A significand and a power of ten. -/
structure Decimal where
  significand : ℕ
  exponent : ℤ

def Decimal.value (decimal : Decimal) : ℚ := decimal.significand * 10 ^ decimal.exponent

/-- The decimal reads back as a positive double. -/
abbrev Decimal.ReadsBack (decimal : Decimal) (value : ℚ) : Prop := rounded decimal.value = value

/-- A significand of one digit too many, which is a power of ten, loses its last zero. -/
def Decimal.carried (digits : ℕ) (decimal : Decimal) : Decimal :=
  if decimal.significand = 10 ^ digits then ⟨10 ^ (digits - 1), decimal.exponent + 1⟩ else decimal

/-- Of the decimals with so many digits that read back as the number the closest one, of two
equally close ones the even one. -/
def closest (value : ℚ) (digits : ℕ) : Option Decimal :=
  let exponent := Int.log 10 value + 1 - digits
  let below : Decimal := ⟨⌊value / 10 ^ exponent⌋₊, exponent⟩
  let above : Decimal := ⟨below.significand + 1, exponent⟩
  if below.ReadsBack value ∧ (¬ above.ReadsBack value ∨ value - below.value < above.value - value ∨
      (value - below.value = above.value - value ∧ below.significand % 2 = 0)) then some below
  else if above.ReadsBack value then some (above.carried digits)
  else none

/-- The exact decimal expansion of a number whose denominator is a power of two. -/
def expansion (value : ℚ) : Decimal :=
  ⟨value.num.natAbs * 5 ^ Nat.log 2 value.den, -(Nat.log 2 value.den : ℤ)⟩

/-- The shortest decimal that reads back as a positive double. Seventeen digits are enough for
every double; the exact expansion stands at the end so that the search cannot fail. -/
def shortest (value : ℚ) : Decimal :=
  ((List.range' 1 17).findSome? (closest value)).getD (expansion value)

/-- The digits with an exponent, one digit before the point. -/
def scientific (digits : List Char) (power : ℤ) : List Char :=
  let mantissa := match digits with
    | first :: second :: rest => first :: '.' :: second :: rest
    | short => short
  mantissa ++ 'e' :: (if power < 0 then '-' else '+') :: Nat.toDigits 10 power.natAbs

/-- Digits times a power of ten. -/
def layout (digits : List Char) (exponent : ℤ) : List Char :=
  let point := digits.length + exponent
  if 0 ≤ exponent ∧ point ≤ 21 then digits ++ List.replicate exponent.toNat '0'
  else if 0 < point ∧ point ≤ 21 then digits.take point.toNat ++ '.' :: digits.drop point.toNat
  else if -6 < point ∧ point ≤ 0 then
    '0' :: '.' :: (List.replicate (-point).toNat '0' ++ digits)
  else scientific digits (point - 1)

/-- A positive double. -/
def positiveChars (value : ℚ) : List Char :=
  layout (Nat.toDigits 10 (shortest value).significand) (shortest value).exponent

def toChars : JsNumber → List Char
  | .nan => ['N', 'a', 'N']
  | .posInf => infinityChars
  | .negInf => '-' :: infinityChars
  | .finite double =>
    if double.value = 0 then ['0']
    else if double.value < 0 then '-' :: positiveChars (-double.value)
    else positiveChars double.value

/-- The text of a number. -/
def toText (number : JsNumber) : String := String.ofList (toChars number)

/-! ### The search -/

theorem ten_zpow_pos (exponent : ℤ) : (0 : ℚ) < 10 ^ exponent := zpow_pos (by norm_num) exponent

/-- Dropping the last zero does not change the value. -/
theorem value_carried {digits : ℕ} (h : 0 < digits) (decimal : Decimal) :
    (decimal.carried digits).value = decimal.value := by
  unfold Decimal.carried
  split_ifs with hpower
  · have hsplit : (10 : ℚ) ^ digits = 10 ^ (digits - 1) * 10 := by
      rw [← pow_succ, Nat.sub_add_cancel h]
    rw [Decimal.value, Decimal.value, hpower, zpow_add₀ (by norm_num), zpow_one]
    push_cast
    rw [hsplit]
    ring
  · rfl

/-- What the search finds reads back. -/
theorem readsBack_closest {value : ℚ} {digits : ℕ} (h : 0 < digits) {decimal : Decimal}
    (hfound : closest value digits = some decimal) : decimal.ReadsBack value := by
  simp only [closest] at hfound
  split_ifs at hfound with hbelow habove
  · obtain rfl := Option.some.inj hfound
    exact hbelow.1
  · obtain rfl := Option.some.inj hfound
    rw [Decimal.ReadsBack, value_carried h]
    exact habove

/-- The denominator of a double is a power of two. -/
theorem den_of_representable {value : ℚ} (h : Representable value) :
    ∃ power, value.den = 2 ^ power := by
  obtain ⟨significand, exponent, -, -, hvalue, -⟩ := h
  by_cases hexponent : 0 ≤ exponent
  · obtain ⟨power, rfl⟩ := Int.eq_ofNat_of_zero_le hexponent
    refine ⟨0, ?_⟩
    have hinteger : value = ((significand * 2 ^ power : ℤ) : ℚ) := by
      rw [hvalue]
      push_cast
      rw [zpow_natCast]
    rw [hinteger, Rat.den_intCast, pow_zero]
  · have hnegative : 0 ≤ -exponent := by omega
    obtain ⟨power, hpower⟩ := Int.eq_ofNat_of_zero_le hnegative
    have hquotient : value = Rat.divInt significand (2 ^ power) := by
      rw [hvalue, Rat.divInt_eq_div, ← neg_neg exponent, hpower, zpow_neg, zpow_natCast,
        div_eq_mul_inv]
      push_cast
      rfl
    have hdvd : value.den ∣ 2 ^ power := by
      have hint := Rat.den_dvd significand (2 ^ power)
      rw [← hquotient] at hint
      exact_mod_cast hint
    obtain ⟨lower, -, hlower⟩ := (Nat.dvd_prime_pow Nat.prime_two).mp hdvd
    exact ⟨lower, hlower⟩

/-- The exact expansion of a positive double is the double. -/
theorem value_expansion {value : ℚ} (h : Representable value) (hpos : 0 < value) :
    (expansion value).value = value := by
  obtain ⟨power, hden⟩ := den_of_representable h
  have hlog : Nat.log 2 value.den = power := by rw [hden, Nat.log_pow (by norm_num)]
  have hnum : ((value.num.natAbs : ℕ) : ℚ) = value.num := by
    rw [Nat.cast_natAbs, abs_of_pos (Rat.num_pos.mpr hpos)]
  have hten : (10 : ℚ) ^ power = 2 ^ power * 5 ^ power := by rw [← mul_pow]; norm_num
  rw [Decimal.value, expansion, hlog, zpow_neg, zpow_natCast]
  push_cast
  rw [hnum, hten]
  calc (value.num : ℚ) * 5 ^ power * (2 ^ power * 5 ^ power)⁻¹ = value.num / 2 ^ power := by
        field_simp
    _ = value.num / value.den := by rw [hden]; push_cast; rfl
    _ = value := Rat.num_div_den value

/-- The decimal that is written reads back as the double. -/
theorem rounded_shortest {value : ℚ} (h : Representable value) (hpos : 0 < value) :
    rounded (shortest value).value = value := by
  unfold shortest
  cases hsearch : (List.range' 1 17).findSome? (closest value) with
  | none =>
    rw [Option.getD_none, value_expansion h hpos]
    exact rounded_of_representable h
  | some decimal =>
    obtain ⟨digits, hmem, hfound⟩ := List.exists_of_findSome?_eq_some hsearch
    exact readsBack_closest (List.mem_range'_1.mp hmem).1 hfound

theorem significand_shortest_pos {value : ℚ} (h : Representable value) (hpos : 0 < value) :
    0 < (shortest value).significand := by
  rw [Nat.pos_iff_ne_zero]
  intro hzero
  have hback := rounded_shortest h hpos
  rw [Decimal.value, hzero, Nat.cast_zero, zero_mul] at hback
  have hround : rounded 0 = 0 := rounded_of_integral (n := 0) (by simp)
  rw [hround] at hback
  exact hpos.ne hback

/-! ### What is written is read -/

/-- All characters are digits. -/
def AllDigits (chars : List Char) : Prop := ∀ c ∈ chars, c.isDigit = true

theorem allDigits_toDigits (n : ℕ) : AllDigits (Nat.toDigits 10 n) :=
  fun _ hc ↦ Nat.isDigit_of_mem_toDigits (by norm_num) (by norm_num) hc

theorem allDigits_zeros (count : ℕ) : AllDigits (List.replicate count '0') := by
  intro c hc
  rw [List.eq_of_mem_replicate hc]
  rfl

theorem AllDigits.append {first second : List Char} (hfirst : AllDigits first)
    (hsecond : AllDigits second) : AllDigits (first ++ second) := by
  intro c hc
  rcases List.mem_append.mp hc with h | h
  · exact hfirst c h
  · exact hsecond c h

@[simp] theorem ofDigitChars_toDigits (n : ℕ) : Nat.ofDigitChars 10 (Nat.toDigits 10 n) 0 = n :=
  Nat.ofDigitChars_toDigits (by norm_num) (by norm_num)

theorem readDigits_toDigits (n : ℕ) : readDigits (Nat.toDigits 10 n) = some n := by
  rw [readDigits, if_pos ⟨Nat.toDigits_ne_nil, List.all_eq_true.2 (allDigits_toDigits n)⟩,
    ofDigitChars_toDigits]

/-- An exponent part as it is written. -/
theorem readExponent_written (power : ℤ) :
    readExponent ('e' :: (if power < 0 then '-' else '+') :: Nat.toDigits 10 power.natAbs) =
      some power := by
  split_ifs with hnegative
  · show (readDigits (Nat.toDigits 10 power.natAbs)).map (fun power : ℕ ↦ -(power : ℤ)) = some power
    rw [readDigits_toDigits, Option.map_some]
    exact congrArg some (by omega)
  · show (readDigits (Nat.toDigits 10 power.natAbs)).map (fun power : ℕ ↦ (power : ℤ)) = some power
    rw [readDigits_toDigits, Option.map_some]
    exact congrArg some (by omega)

/-- The text ends or goes on with a character that is no digit. -/
def StopsDigits (chars : List Char) : Prop := ∀ c rest, chars = c :: rest → c.isDigit = false

theorem span_digits {digits rest : List Char} (hdigits : AllDigits digits)
    (hrest : StopsDigits rest) :
    (digits ++ rest).takeWhile Char.isDigit = digits ∧
      (digits ++ rest).dropWhile Char.isDigit = rest := by
  rw [List.takeWhile_append_of_pos hdigits, List.dropWhile_append_of_pos hdigits]
  cases rest with
  | nil => simp
  | cons c rest =>
    have hc := hrest c rest rfl
    simp [hc]

/-- Digits with a point. -/
theorem readDecimal_point {whole fraction exponentPart : List Char} (hwhole : AllDigits whole)
    (hfraction : AllDigits fraction) (hexponent : StopsDigits exponentPart) :
    readDecimal (whole ++ '.' :: (fraction ++ exponentPart)) =
      decimalValue whole fraction exponentPart := by
  have hstops : StopsDigits ('.' :: (fraction ++ exponentPart)) := by
    intro c rest hchars
    rw [← (List.cons.inj hchars).1]
    rfl
  obtain ⟨htaken, hdropped⟩ := span_digits hwhole hstops
  obtain ⟨hfractionTaken, hfractionDropped⟩ := span_digits hfraction hexponent
  rw [readDecimal, htaken, hdropped]
  show decimalValue whole _ _ = _
  rw [hfractionTaken, hfractionDropped]

/-- Digits without a point. -/
theorem readDecimal_whole {whole exponentPart : List Char} (hwhole : AllDigits whole)
    (hexponent : StopsDigits exponentPart) (hpoint : ∀ rest, exponentPart ≠ '.' :: rest) :
    readDecimal (whole ++ exponentPart) = decimalValue whole [] exponentPart := by
  obtain ⟨htaken, hdropped⟩ := span_digits hwhole hexponent
  rw [readDecimal, htaken, hdropped]
  split
  · rename_i rest
    exact absurd rfl (hpoint rest)
  · rfl

/-- The value of digits with an exponent part, from the value without the point. -/
theorem decimalValue_eq {whole fraction exponentPart : List Char} {power : ℤ}
    (hne : whole ++ fraction ≠ []) (hpower : readExponent exponentPart = some power) :
    decimalValue whole fraction exponentPart =
      some ((Nat.ofDigitChars 10 (whole ++ fraction) 0 : ℚ) * 10 ^ (power - fraction.length)) := by
  have hboth : ¬ (whole = [] ∧ fraction = []) := fun h ↦ hne (List.append_eq_nil_iff.mpr h)
  rw [decimalValue, if_neg hboth, hpower]
  rfl

/-- An exponent part as it is written does not go on with a digit or a point. -/
theorem stopsDigits_exponent (rest : List Char) : StopsDigits ('e' :: rest) := by
  intro c tail hchars
  rw [← (List.cons.inj hchars).1]
  rfl

theorem stopsDigits_nil : StopsDigits [] := nofun

section Layout

variable {digits : List Char} (hdigits : AllDigits digits) (hne : digits ≠ []) (exponent : ℤ)

include hdigits hne

theorem readDecimal_scientific (power : ℤ) :
    readDecimal (scientific digits power) =
      some ((Nat.ofDigitChars 10 digits 0 : ℚ) * 10 ^ (power - (digits.length - 1))) := by
  have hexponent := readExponent_written power
  match digits, hne with
  | [first], _ =>
    show readDecimal ([first] ++ 'e' :: _) = _
    rw [readDecimal_whole hdigits (stopsDigits_exponent _) nofun,
      decimalValue_eq (List.cons_ne_nil _ _) hexponent]
    simp
  | first :: second :: rest, _ =>
    have hfirst : AllDigits [first] := by
      intro c hc
      exact hdigits c (List.mem_cons.mpr (Or.inl (List.mem_singleton.mp hc)))
    have hrest : AllDigits (second :: rest) := fun c hc ↦ hdigits c (List.mem_cons_of_mem first hc)
    show readDecimal ([first] ++ '.' :: ((second :: rest) ++ 'e' :: _)) = _
    rw [readDecimal_point hfirst hrest (stopsDigits_exponent _),
      decimalValue_eq (List.cons_ne_nil _ _) hexponent]
    simp

/-- Wherever the point stands, the digits and the power of ten are read back. -/
theorem readDecimal_layout :
    readDecimal (layout digits exponent) =
      some ((Nat.ofDigitChars 10 digits 0 : ℚ) * 10 ^ exponent) := by
  have hlength : 0 < digits.length := List.length_pos_iff.mpr hne
  simp only [layout]
  split_ifs with hinteger hinside hbefore
  · -- zeros after the digits
    obtain ⟨zeros, rfl⟩ := Int.eq_ofNat_of_zero_le hinteger.1
    have hall := hdigits.append (allDigits_zeros zeros)
    have hread := readDecimal_whole hall stopsDigits_nil nofun
    rw [List.append_nil] at hread
    rw [Int.toNat_natCast, hread, decimalValue_eq (by simp [hne]) rfl, List.append_nil,
      Nat.ofDigitChars_append, Nat.ofDigitChars_replicate_zero]
    push_cast
    simp [mul_comm]
  · -- the point among the digits
    obtain ⟨point, hpoint⟩ := Int.eq_ofNat_of_zero_le hinside.1.le
    rw [hpoint, Int.toNat_natCast]
    have hbefore : AllDigits (digits.take point) := fun c hc ↦ hdigits c (List.mem_of_mem_take hc)
    have hafter : AllDigits (digits.drop point) := fun c hc ↦ hdigits c (List.mem_of_mem_drop hc)
    have hread := readDecimal_point hbefore hafter stopsDigits_nil
    rw [List.append_nil] at hread
    rw [hread, decimalValue_eq (by rwa [List.take_append_drop]) rfl, List.take_append_drop,
      List.length_drop]
    have hpower : (0 : ℤ) - ((digits.length - point : ℕ) : ℤ) = exponent := by omega
    rw [hpower]
  · -- zeros between the point and the digits
    have hall : AllDigits (List.replicate (-(digits.length + exponent)).toNat '0' ++ digits) :=
      (allDigits_zeros _).append hdigits
    have hzero : AllDigits ['0'] := allDigits_zeros 1
    have hread := readDecimal_point hzero hall stopsDigits_nil
    rw [List.append_nil] at hread
    show readDecimal (['0'] ++ '.' :: _) = _
    rw [hread, decimalValue_eq (List.cons_ne_nil _ _) rfl]
    have hvalue : Nat.ofDigitChars 10
        (['0'] ++ (List.replicate (-(digits.length + exponent)).toNat '0' ++ digits)) 0 =
        Nat.ofDigitChars 10 digits 0 := by
      rw [Nat.ofDigitChars_append, Nat.ofDigitChars_append, Nat.ofDigitChars_replicate_zero]
      simp [Nat.ofDigitChars]
    have hpower : (0 : ℤ) -
        ((List.replicate (-(digits.length + exponent)).toNat '0' ++ digits).length : ℤ) =
        exponent := by
      rw [List.length_append, List.length_replicate]
      omega
    rw [hvalue, hpower]
  · rw [readDecimal_scientific hdigits hne]
    have hpower : (digits.length + exponent - 1 - (digits.length - 1) : ℤ) = exponent := by omega
    rw [hpower]

end Layout

/-! ### The characters of a written number -/

/-- The characters of written numbers. -/
def IsNumberChar (c : Char) : Prop :=
  c.isDigit = true ∨ c ∈ ['.', '-', '+', 'e', 'N', 'a', 'I', 'n', 'f', 'i', 't', 'y']

instance : DecidablePred IsNumberChar := fun _ ↦ inferInstanceAs (Decidable (_ ∨ _))

theorem IsNumberChar.isSpace {c : Char} (h : IsNumberChar c) : isSpace c = false := by
  rcases h with hdigit | hother
  · have hrange : 48 ≤ c.toNat ∧ c.toNat ≤ 57 := Char.isDigit_iff_toNat.mp hdigit
    simp only [EcmaText.isSpace, List.contains_eq_mem, List.mem_cons, List.not_mem_nil,
      Bool.or_eq_false_iff, Bool.and_eq_false_iff, decide_eq_false_iff_not, or_false]
    omega
  · exact (forall_mem_of_all (by decide) : ∀ c ∈ _, EcmaText.isSpace c = false) c hother

/-- A mantissa, the letter and the sign, and the digits of the power. -/
theorem scientific_chars {digits : List Char} (h : AllDigits digits) (power : ℤ) :
    ∀ c ∈ scientific digits power, IsNumberChar c := by
  intro c hc
  have hpower : c ∈ 'e' :: (if power < 0 then '-' else '+') :: Nat.toDigits 10 power.natAbs →
      IsNumberChar c := by
    intro hmem
    rcases List.mem_cons.mp hmem with rfl | hmem
    · exact Or.inr (by decide)
    rcases List.mem_cons.mp hmem with rfl | hmem
    · split_ifs <;> exact Or.inr (by decide)
    · exact Or.inl (allDigits_toDigits _ c hmem)
  rcases List.mem_append.mp hc with hmantissa | hexponent
  · match digits, h with
    | [], _ => exact (List.not_mem_nil hmantissa).elim
    | [first], h => exact Or.inl (h c hmantissa)
    | first :: second :: rest, h =>
      rcases List.mem_cons.mp hmantissa with hfirst | hmantissa
      · exact Or.inl (h c (List.mem_cons.mpr (Or.inl hfirst)))
      rcases List.mem_cons.mp hmantissa with rfl | hrest
      · exact Or.inr (by decide)
      · exact Or.inl (h c (List.mem_cons_of_mem first hrest))
  · exact hpower hexponent

/-- Assumes: the point stands where no exponent is written. There are digits and points only. -/
theorem layout_plain {digits : List Char} (h : AllDigits digits) {exponent : ℤ}
    (hlow : -6 < digits.length + exponent) (hhigh : digits.length + exponent ≤ 21) :
    ∀ c ∈ layout digits exponent, c.isDigit = true ∨ c = '.' := by
  intro c hc
  simp only [layout] at hc
  split_ifs at hc with hinteger hinside hbefore
  · exact Or.inl (h.append (allDigits_zeros _) c hc)
  · rcases List.mem_append.mp hc with hwhole | hrest
    · exact Or.inl (h c (List.mem_of_mem_take hwhole))
    rcases List.mem_cons.mp hrest with rfl | hfraction
    · exact Or.inr rfl
    · exact Or.inl (h c (List.mem_of_mem_drop hfraction))
  · rcases List.mem_cons.mp hc with rfl | hrest
    · exact Or.inl rfl
    rcases List.mem_cons.mp hrest with rfl | hfraction
    · exact Or.inr rfl
    · exact Or.inl ((allDigits_zeros _).append h c hfraction)
  · omega

theorem layout_chars {digits : List Char} (h : AllDigits digits) (exponent : ℤ) :
    ∀ c ∈ layout digits exponent, IsNumberChar c := by
  by_cases hplain : -6 < digits.length + exponent ∧ digits.length + exponent ≤ 21
  · intro c hc
    rcases layout_plain h hplain.1 hplain.2 c hc with hdigit | rfl
    · exact Or.inl hdigit
    · exact Or.inr (by decide)
  · have hscientific : layout digits exponent =
        scientific digits (digits.length + exponent - 1) := by
      simp only [layout]
      rw [if_neg (by omega), if_neg (by omega), if_neg (by omega)]
    rw [hscientific]
    exact scientific_chars h _

theorem isNumberChar_toChars (number : JsNumber) : ∀ c ∈ toChars number, IsNumberChar c := by
  have hpositive : ∀ value, ∀ c ∈ positiveChars value, IsNumberChar c := fun value ↦
    layout_chars (allDigits_toDigits _) _
  cases number with
  | nan => exact fun c hc ↦ Or.inr (forall_mem_of_all (by decide) c hc)
  | posInf => exact fun c hc ↦ Or.inr (forall_mem_of_all (by decide) c hc)
  | negInf => exact fun c hc ↦ Or.inr (forall_mem_of_all (by decide) c hc)
  | finite double =>
    intro c hc
    simp only [toChars] at hc
    split_ifs at hc with hzero hnegative
    · rw [List.mem_singleton.mp hc]
      exact Or.inl rfl
    · rcases List.mem_cons.mp hc with rfl | hrest
      · exact Or.inr (by decide)
      · exact hpositive _ c hrest
    · exact hpositive _ c hc

/-! ### The round trip -/

theorem readUnsigned_of_readDecimal {chars : List Char} {value : ℚ}
    (h : readDecimal chars = some value) : readUnsigned chars = ofRat value := by
  have hword : chars ≠ infinityChars := by
    rintro rfl
    cases h
  rw [readUnsigned, if_neg hword, h, Option.elim_some]

/-- No radix prefix is written. -/
theorem radixPrefix_of_numberChars {chars : List Char} (h : ∀ c ∈ chars, IsNumberChar c) :
    radixPrefix chars = none := by
  match chars, h with
  | [], _ => rfl
  | [_], _ => simp [radixPrefix]
  | first :: second :: rest, h =>
    have hletters : ∀ c ∈ ['x', 'X', 'o', 'O', 'b', 'B'], ¬ IsNumberChar c :=
      forall_mem_of_all (by decide)
    have hsecond : second ∉ ['x', 'X', 'o', 'O', 'b', 'B'] := fun hmem ↦
      hletters second hmem (h second (List.mem_cons_of_mem first List.mem_cons_self))
    unfold radixPrefix
    split
    · rename_i hchars
      obtain ⟨rfl, rfl⟩ := List.cons.inj (List.cons.inj hchars).2
      simp only [List.mem_cons, List.not_mem_nil, or_false, not_or] at hsecond
      obtain ⟨hx, hX, ho, hO, hb, hB⟩ := hsecond
      rw [if_neg (not_or.2 ⟨hx, hX⟩), if_neg (not_or.2 ⟨ho, hO⟩), if_neg (not_or.2 ⟨hb, hB⟩)]
    · rfl

/-- A text with such characters only is a decimal literal. -/
theorem ofChars_eq_readSigned {chars : List Char} (hne : chars ≠ [])
    (hchars : ∀ c ∈ chars, IsNumberChar c) : ofChars chars = readSigned chars := by
  rw [ofChars, if_neg hne, radixPrefix_of_numberChars hchars]

/-- A decimal literal without a sign. -/
theorem readSigned_of_readDecimal {chars : List Char} {value : ℚ}
    (h : readDecimal chars = some value) : readSigned chars = ofRat value := by
  unfold readSigned
  split
  · cases h
  · cases h
  · exact readUnsigned_of_readDecimal h

/-- A positive double is written as a decimal literal that is rounded to it. -/
theorem readDecimal_positiveChars (value : ℚ) :
    readDecimal (positiveChars value) = some (shortest value).value := by
  rw [positiveChars, readDecimal_layout (allDigits_toDigits _) Nat.toDigits_ne_nil,
    ofDigitChars_toDigits]
  rfl

theorem readDecimal_toDigits (n : ℕ) : readDecimal (Nat.toDigits 10 n) = some (n : ℚ) := by
  have hwhole := readDecimal_whole (allDigits_toDigits n) stopsDigits_nil nofun
  rw [List.append_nil] at hwhole
  rw [hwhole, decimalValue_eq (by simp) rfl, List.append_nil, ofDigitChars_toDigits]
  simp

theorem readSigned_toChars (number : JsNumber) : readSigned (toChars number) = number := by
  cases number with
  | nan => rfl
  | posInf => rfl
  | negInf => rfl
  | finite double =>
    simp only [toChars]
    split_ifs with hzero hnegative
    · have hread := readDecimal_toDigits 0
      rw [Nat.cast_zero, ← hzero] at hread
      exact (readSigned_of_readDecimal hread).trans (ofRat_value double)
    · have hpositive : 0 < -double.value := neg_pos.mpr hnegative
      show (readUnsigned (positiveChars (-double.value))).neg = _
      have hread : ofRat (shortest (-double.value)).value =
          .finite ⟨-double.value, double.representable.neg⟩ :=
        ofRat_eq_finite (rounded_shortest double.representable.neg hpositive)
      rw [readUnsigned_of_readDecimal (readDecimal_positiveChars _), hread]
      exact congrArg JsNumber.finite (Double.ext (neg_neg double.value))
    · have hpositive : 0 < double.value :=
        lt_of_le_of_ne (not_lt.mp hnegative) (Ne.symm hzero)
      rw [readSigned_of_readDecimal (readDecimal_positiveChars _)]
      exact ofRat_eq_finite (rounded_shortest double.representable hpositive)

theorem toChars_ne_nil (number : JsNumber) : toChars number ≠ [] := by
  intro hempty
  have hread := readSigned_toChars number
  rw [hempty] at hread
  obtain rfl : JsNumber.nan = number := hread
  cases hempty

theorem toText_ne_empty (number : JsNumber) : toText number ≠ "" := by
  intro hempty
  have hchars := congrArg String.toList hempty
  rw [toText, String.toList_ofList] at hchars
  exact toChars_ne_nil number hchars

/-- A written number reads back as itself. -/
@[simp] theorem ofText_toText (number : JsNumber) : ofText (toText number) = number := by
  have hspaces : ∀ c ∈ toChars number, isSpace c = false := fun c hc ↦
    (isNumberChar_toChars number c hc).isSpace
  rw [ofText, toText, String.toList_ofList, trimChars_of_forall hspaces,
    ofChars_eq_readSigned (toChars_ne_nil number) (isNumberChar_toChars number),
    readSigned_toChars]

/-- Numbers of one text are equal. -/
theorem toText_injective : Function.Injective toText := fun first second h ↦ by
  rw [← ofText_toText first, h, ofText_toText]

/-- The decimal digits of a natural number are the nearest number. -/
theorem ofText_toString (n : ℕ) : ofText (toString n) = ofRat n := by
  have hchars : (toString n).toList = Nat.toDigits 10 n := String.toList_ofList
  have hdigits : ∀ c ∈ Nat.toDigits 10 n, IsNumberChar c := fun c hc ↦
    Or.inl (allDigits_toDigits n c hc)
  rw [ofText, hchars, trimChars_of_forall fun c hc ↦ (hdigits c hc).isSpace,
    ofChars_eq_readSigned Nat.toDigits_ne_nil hdigits,
    readSigned_of_readDecimal (readDecimal_toDigits n)]

/-! ### Numbers that are written without an exponent -/

/-- The number of digits before the point is the decimal magnitude. -/
theorem value_between {significand : ℕ} (h : 0 < significand) (exponent : ℤ) :
    (10 : ℚ) ^ ((Nat.toDigits 10 significand).length + exponent - 1) ≤
        (Decimal.mk significand exponent).value ∧
      (Decimal.mk significand exponent).value <
        10 ^ ((Nat.toDigits 10 significand).length + exponent) := by
  have hlength : 0 < (Nat.toDigits 10 significand).length := Nat.length_toDigits_pos
  have hupper : significand < 10 ^ (Nat.toDigits 10 significand).length :=
    (Nat.length_toDigits_le_iff (by norm_num) hlength).mp le_rfl
  have hlower : 10 ^ ((Nat.toDigits 10 significand).length - 1) ≤ significand := by
    by_cases hone : (Nat.toDigits 10 significand).length = 1
    · rw [hone]
      exact h
    · rw [← not_lt, ← Nat.length_toDigits_le_iff (by norm_num) (by omega)]
      omega
  have hupperCast : (significand : ℚ) < 10 ^ (Nat.toDigits 10 significand).length := by
    exact_mod_cast hupper
  have hlowerCast : (10 : ℚ) ^ ((Nat.toDigits 10 significand).length - 1) ≤ significand := by
    exact_mod_cast hlower
  have hpos := ten_zpow_pos exponent
  rw [Decimal.value]
  constructor
  · have hsplit : (10 : ℚ) ^ ((Nat.toDigits 10 significand).length + exponent - 1 : ℤ) =
        10 ^ ((Nat.toDigits 10 significand).length - 1) * 10 ^ exponent := by
      rw [← zpow_natCast, ← zpow_add₀ (by norm_num)]
      congr 1
      omega
    rw [hsplit]
    exact mul_le_mul_of_nonneg_right hlowerCast hpos.le
  · rw [zpow_add₀ (by norm_num), zpow_natCast]
    exact mul_lt_mul_of_pos_right hupperCast hpos

/-- A double of ordinary magnitude is written with digits and at most a point. -/
theorem positiveChars_plain {value : ℚ} (h : Representable value) (hlow : 1 ≤ value)
    (hhigh : value ≤ 10 ^ 20) : ∀ c ∈ positiveChars value, c.isDigit = true ∨ c = '.' := by
  have hpos : 0 < value := lt_of_lt_of_le one_pos hlow
  obtain ⟨hlower, hupper⟩ :=
    value_between (significand_shortest_pos h hpos) (shortest value).exponent
  have hnonneg : 0 ≤ (shortest value).value :=
    mul_nonneg (Nat.cast_nonneg _) (ten_zpow_pos _).le
  have hnear := abs_le.mp (abs_rounded_sub_le (shortest value).value)
  have htiny : (2 : ℚ) ^ (-1075 : ℤ) ≤ 1 / 4 := by
    have hquarter : (1 / 4 : ℚ) = 2 ^ (-2 : ℤ) := by norm_num
    rw [hquarter]
    exact zpow_le_zpow_right₀ (by norm_num) (by norm_num)
  rw [rounded_shortest h hpos, abs_of_nonneg hnonneg] at hnear
  have habove : (10 : ℚ) ^ (-1 : ℤ) < (shortest value).value := by
    norm_num
    linarith [hnear.2]
  have hbelow : (shortest value).value < (10 : ℚ) ^ (21 : ℤ) := by
    norm_num
    linarith [hnear.1]
  refine layout_plain (allDigits_toDigits _) ?_ ?_
  · have hpower := habove.trans hupper
    rw [zpow_lt_zpow_iff_right₀ (by norm_num)] at hpower
    omega
  · have hpower := hlower.trans_lt hbelow
    rw [zpow_lt_zpow_iff_right₀ (by norm_num)] at hpower
    omega

/-- Zero and the doubles of ordinary magnitude are written with digits, at most a point and at most
a sign. -/
theorem toChars_plain {double : Double} (hlow : double.value = 0 ∨ 1 ≤ |double.value|)
    (hhigh : |double.value| ≤ 10 ^ 20) :
    ∀ c ∈ toChars (.finite double), c.isDigit = true ∨ c = '.' ∨ c = '-' := by
  intro c hc
  simp only [toChars] at hc
  split_ifs at hc with hzero hnegative
  · rw [List.mem_singleton.mp hc]
    exact Or.inl rfl
  · have habs := hlow.resolve_left hzero
    rw [abs_of_neg hnegative] at habs hhigh
    rcases List.mem_cons.mp hc with rfl | hrest
    · exact Or.inr (Or.inr rfl)
    · exact (positiveChars_plain double.representable.neg habs hhigh c hrest).imp id Or.inl
  · have habs := hlow.resolve_left hzero
    rw [abs_of_nonneg (not_lt.mp hnegative)] at habs hhigh
    exact (positiveChars_plain double.representable habs hhigh c hc).imp id Or.inl

/-! ### Integer division by rounding down -/

/-- The quotient of two safe integers moves by less than its distance to the next integer. -/
theorem abs_rounded_div_sub_lt {n : ℤ} {d : ℕ} (hn : |n| < 2 ^ 53) (hd : 0 < d)
    (hsmall : d < 2 ^ 53) : |rounded ((n : ℚ) / d) - n / d| < 1 / d := by
  have hdpos : (0 : ℚ) < d := by exact_mod_cast hd
  have hnabs : |(n : ℚ)| ≤ 2 ^ 53 - 1 := by
    have hint : |n| ≤ 2 ^ 53 - 1 := by omega
    exact_mod_cast hint
  have htiny : (2 : ℚ) ^ (-1075 : ℤ) < 1 / 2 ^ 53 / d := by
    have hdcast : (d : ℚ) < 2 ^ 53 := by exact_mod_cast hsmall
    have hpower : (2 : ℚ) ^ (-1075 : ℤ) < 1 / 2 ^ 53 / 2 ^ 53 := by
      have hsquare : (1 : ℚ) / 2 ^ 53 / 2 ^ 53 = 2 ^ (-106 : ℤ) := by norm_num
      rw [hsquare]
      exact zpow_lt_zpow_right₀ (by norm_num) (by norm_num)
    exact hpower.trans (div_lt_div_of_pos_left (by norm_num) hdpos hdcast)
  calc |rounded ((n : ℚ) / d) - n / d| ≤ |(n : ℚ) / d| / 2 ^ 53 + 2 ^ (-1075 : ℤ) :=
        abs_rounded_sub_le _
    _ < |(n : ℚ) / d| / 2 ^ 53 + 1 / 2 ^ 53 / d := by linarith
    _ = (|(n : ℚ)| + 1) / 2 ^ 53 / d := by
      rw [abs_div, abs_of_pos hdpos]
      ring
    _ ≤ 2 ^ 53 / 2 ^ 53 / d := by
      refine div_le_div_of_nonneg_right ?_ hdpos.le
      exact div_le_div_of_nonneg_right (by linarith) (by norm_num)
    _ = 1 / d := by norm_num

/-- Rounding the quotient of two safe integers and then rounding down is integer division. -/
theorem floor_ofRat_div {n : ℤ} {d : ℕ} (hn : |n| < 2 ^ 53) (hd : 0 < d) (hsmall : d < 2 ^ 53) :
    (ofRat (n / d)).floor = ofRat ((n / d : ℤ) : ℚ) := by
  have hdpos : (0 : ℚ) < d := by exact_mod_cast hd
  have hdint : (0 : ℤ) < d := by exact_mod_cast hd
  have hnear := abs_lt.mp (abs_rounded_div_sub_lt hn hd hsmall)
  have hsplit : (n : ℚ) / d = (n / d : ℤ) + (n % d : ℤ) / d := by
    have hint := Int.mul_ediv_add_emod n d
    have hcast : (d : ℚ) * (n / d : ℤ) + (n % d : ℤ) = n := by exact_mod_cast hint
    rw [← hcast]
    field_simp
  have hremainder : 0 ≤ n % d := Int.emod_nonneg n hdint.ne'
  have hless : n % d < d := Int.emod_lt_of_pos n hdint
  have hquotient : |n / d| ≤ 2 ^ 53 := by
    obtain ⟨hlow, hhigh⟩ := abs_lt.mp hn
    refine abs_le.mpr ⟨?_, ?_⟩
    · exact Int.le_ediv_of_mul_le hdint (by nlinarith)
    · exact Int.ediv_le_of_le_mul hdint (by nlinarith)
  have hround : ⌊rounded ((n : ℚ) / d)⌋ = n / d := by
    by_cases hexact : n % d = 0
    · have hinteger : (n : ℚ) / d = (n / d : ℤ) := by rw [hsplit, hexact]; simp
      rw [hinteger, rounded_of_representable (representable_intCast hquotient), Int.floor_intCast]
    · have hone : (1 : ℚ) ≤ (n % d : ℤ) := by
        have hint : 1 ≤ n % d := by omega
        exact_mod_cast hint
      have hlast : ((n % d : ℤ) : ℚ) ≤ d - 1 := by
        have hint : n % d ≤ d - 1 := by omega
        exact_mod_cast hint
      have hlow : 1 / (d : ℚ) ≤ (n % d : ℤ) / d := div_le_div_of_nonneg_right hone hdpos.le
      have hhigh : ((n % d : ℤ) : ℚ) / d ≤ 1 - 1 / d := by
        have hdiv := div_le_div_of_nonneg_right hlast hdpos.le
        rwa [sub_div, div_self hdpos.ne'] at hdiv
      rw [Int.floor_eq_iff]
      constructor
      · linarith [hnear.1]
      · linarith [hnear.2]
  have hbound : |rounded ((n : ℚ) / d)| < 2 ^ 1024 := by
    obtain ⟨hlow, hhigh⟩ := Int.floor_eq_iff.mp hround
    have hcast : |((n / d : ℤ) : ℚ)| ≤ 2 ^ 53 := by exact_mod_cast hquotient
    rw [abs_le] at hcast
    have hsafe : |rounded ((n : ℚ) / d)| < 2 ^ 54 := by
      rw [abs_lt]
      constructor
      · linarith [hcast.1]
      · linarith [hcast.2]
    exact hsafe.trans (pow_lt_pow_right₀ (by norm_num) (by norm_num))
  rw [ofRat, dif_pos hbound, JsNumber.floor, hround]

end FileForge.Foundation.EcmaNumber
