import FileForge.Foundation.QueryString
import Mathlib.Logic.Equiv.List

/-!
# Signed download links

`src/files/signing.ts`. A link carries a key, an expiry in seconds and the HMAC of both under the
server's secret, in hexadecimal. HMAC-SHA256 is a parameter (`Hmac`), injective in the message.

The two are joined by a line feed, and no text of a number has one, so the signed string determines
the key and the number (`sign_injective`), whatever the key. `verifySignedLink_eq_ok_iff` is what
the checks come to, and `verifySignedLink_createSignedLink` follows a link from the moment it is
minted: up to its last second it is accepted, and then it has expired.
-/

set_option autoImplicit false
set_option relaxedAutoImplicit false

namespace FileForge.Files.Signing

open Foundation.Binary64 Foundation.EcmaNumber Foundation.EcmaText Foundation.QueryString

/-! ### The functions -/

/-- `createHmac('sha256', secret).update(message).digest('hex')`. -/
structure Hmac where
  digest : String → String → String
  injective : ∀ secret, Function.Injective (digest secret)
  hex : ∀ secret message, ∀ c ∈ (digest secret message).toList, c.isDigit = true ∨
    c ∈ ['a', 'b', 'c', 'd', 'e', 'f']
  nonempty : ∀ secret message, digest secret message ≠ ""

/-- The greatest time value of ECMAScript. -/
def maxTimeMs : ℤ := 8640000000000000

/-- What `Date.now()` returns. -/
structure ClockReading where
  ms : ℤ
  inRange : |ms| ≤ maxTimeMs

/-- `Math.floor(now / 1000)`. -/
def ClockReading.seconds (now : ClockReading) : JsNumber :=
  (ofRat ((now.ms : ℚ) / (1000 : ℕ))).floor

/-- A number without its fraction. -/
def truncated (value : ℚ) : ℤ := if 0 ≤ value then ⌊value⌋ else ⌈value⌉

theorem abs_truncated_le {value : ℚ} {bound : ℤ} (h : |value| ≤ bound) :
    |truncated value| ≤ bound := by
  obtain ⟨hlow, hhigh⟩ := abs_le.mp h
  rw [truncated, abs_le]
  split_ifs with hsign
  · have hfloor : 0 ≤ ⌊value⌋ := Int.floor_nonneg.mpr hsign
    have hbound : 0 ≤ bound := by exact_mod_cast hsign.trans hhigh
    have hle : ⌊value⌋ ≤ bound := by exact_mod_cast (Int.floor_le value).trans hhigh
    omega
  · have hlow' : -((bound : ℤ) : ℚ) ≤ ((⌈value⌉ : ℤ) : ℚ) := hlow.trans (Int.le_ceil value)
    exact ⟨by exact_mod_cast hlow', Int.ceil_le.mpr hhigh⟩

/-- `new Date(time)`, `none` for an invalid date, whose `toISOString` throws. -/
def dateOf : JsNumber → Option ClockReading
  | .finite double =>
    if h : |double.value| ≤ (maxTimeMs : ℤ) then some ⟨truncated double.value, abs_truncated_le h⟩
    else none
  | _ => none

/-- `SignedLink`. -/
structure SignedLink where
  key : String
  expires : JsNumber
  signature : String

/-- `${key}\n${expires}` -/
def signedText (key : String) (expires : JsNumber) : String := key ++ "\n" ++ toText expires

/-- The signature for a key and expiry. -/
def sign (hmac : Hmac) (key : String) (expires : JsNumber) (secret : String) : String :=
  hmac.digest secret (signedText key expires)

def createSignedLink (hmac : Hmac) (key secret : String) (ttlSeconds : JsNumber)
    (now : ClockReading) : SignedLink :=
  let expires := now.seconds.add ttlSeconds
  { key := key, expires := expires, signature := sign hmac key expires secret }

/-- The query string a signed link needs. -/
def signedQuery (link : SignedLink) : String :=
  "expires=" ++ toText link.expires ++ "&signature=" ++ link.signature

inductive Reason
  | missing
  | expired
  | invalid
  deriving DecidableEq, Repr

/-- `VerificationResult`. -/
inductive VerificationResult
  | ok
  | refused (reason : Reason)
  deriving DecidableEq, Repr

/-- Checks a link's signature and expiry. -/
def verifySignedLink (hmac : Hmac) (key : String) (expires signature : Option String)
    (secret : String) (now : ClockReading) : VerificationResult :=
  match expires, signature with
  | some expires, some signature =>
    if expires = "" ∨ signature = "" then .refused .missing
    else
      let expiryNumber := ofText expires
      if expiryNumber.isFinite = false then .refused .invalid
      else if expiryNumber.lt now.seconds then .refused .expired
      else
        let given := signature.toUTF8
        let wanted := (sign hmac key expiryNumber secret).toUTF8
        if given.size ≠ wanted.size then .refused .invalid
        else if given.data = wanted.data then .ok
        else .refused .invalid
  | _, _ => .refused .missing

/-! ### The clock -/

/-- The whole seconds of a clock reading are an integer that a double holds. -/
theorem abs_seconds_le (now : ClockReading) : |now.ms / 1000| ≤ 8640000000000 := by
  have hrange := abs_le.mp now.inRange
  rw [maxTimeMs] at hrange
  rw [abs_le]
  omega

/-- `Math.floor(now / 1000)` is integer division. -/
theorem seconds_eq (now : ClockReading) : now.seconds = ofRat ((now.ms / 1000 : ℤ) : ℚ) := by
  have hms : |now.ms| < 2 ^ 53 := lt_of_le_of_lt now.inRange (by decide)
  exact floor_ofRat_div hms (by norm_num) (by norm_num)

/-- The comparison of a finite number with the clock. -/
theorem lt_seconds_iff (double : Double) (now : ClockReading) :
    (JsNumber.finite double).lt now.seconds = true ↔ double.value < (now.ms / 1000 : ℤ) := by
  have hsafe : |now.ms / 1000| ≤ 2 ^ 53 := (abs_seconds_le now).trans (by norm_num)
  rw [seconds_eq, ofRat_intCast hsafe]
  exact decide_eq_true_iff

/-! ### What the checks come to -/

theorem newline_not_mem_toText (number : JsNumber) : '\n' ∉ (toText number).toList := by
  intro hmem
  rw [toText, String.toList_ofList] at hmem
  exact absurd (isNumberChar_toChars number _ hmem) (by decide)

/-- The signed text determines the key and the number. -/
theorem signedText_injective {key other : String} {expires number : JsNumber}
    (h : signedText key expires = signedText other number) : key = other ∧ expires = number := by
  have hchars : key.toList ++ '\n' :: (toText expires).toList =
      other.toList ++ '\n' :: (toText number).toList := by
    have htoList := congrArg String.toList h
    rw [signedText, signedText, String.toList_append, String.toList_append, String.toList_append,
      String.toList_append] at htoList
    simpa using htoList
  obtain ⟨hkey, hexpires⟩ := eq_of_last_separator (newline_not_mem_toText expires)
    (newline_not_mem_toText number) hchars
  exact ⟨String.toList_injective hkey, toText_injective (String.toList_injective hexpires)⟩

/-- The signature determines the key and the number. -/
theorem sign_injective {hmac : Hmac} {key other secret : String} {expires number : JsNumber}
    (h : sign hmac key expires secret = sign hmac other number secret) :
    key = other ∧ expires = number :=
  signedText_injective (hmac.injective secret h)

/-- The signature of a link that is accepted is the one for the key and the number that the expiry
text denotes, and that moment has not passed. -/
theorem verifySignedLink_eq_ok_iff (hmac : Hmac) (key expires signature secret : String)
    (now : ClockReading) :
    verifySignedLink hmac key (some expires) (some signature) secret now = .ok ↔
      expires ≠ "" ∧ ∃ double, ofText expires = .finite double ∧
        (now.ms / 1000 : ℤ) ≤ double.value ∧
        signature = sign hmac key (.finite double) secret := by
  constructor
  · intro h
    simp only [verifySignedLink] at h
    split_ifs at h with hempty hfinite hexpired hsize hbytes
    cases hnumber : ofText expires with
    | nan => rw [hnumber] at hfinite; exact absurd rfl hfinite
    | posInf => rw [hnumber] at hfinite; exact absurd rfl hfinite
    | negInf => rw [hnumber] at hfinite; exact absurd rfl hfinite
    | finite double =>
      rw [hnumber, lt_seconds_iff, not_lt] at hexpired
      refine ⟨fun h ↦ hempty (Or.inl h), double, rfl, hexpired, ?_⟩
      rw [hnumber] at hbytes
      exact String.toByteArray_inj.mp (ByteArray.ext hbytes)
  · rintro ⟨hexpires, double, hnumber, hcurrent, hsignature⟩
    have hne : signature ≠ "" := by
      rw [hsignature]
      exact hmac.nonempty secret _
    have hexpired : ¬ (JsNumber.finite double).lt now.seconds = true := by
      rw [lt_seconds_iff, not_lt]
      exact hcurrent
    simp only [verifySignedLink]
    rw [if_neg (not_or.mpr ⟨hexpires, hne⟩), hnumber, if_neg (by simp [JsNumber.isFinite]),
      if_neg hexpired, ← hsignature, if_neg (not_not.mpr rfl), if_pos rfl]

/-- A link whose moment has passed has expired, whatever its signature. -/
theorem verifySignedLink_of_past {hmac : Hmac} {key expires signature secret : String}
    {now : ClockReading} {double : Double} (hexpires : expires ≠ "") (hsignature : signature ≠ "")
    (hnumber : ofText expires = .finite double) (hpast : double.value < (now.ms / 1000 : ℤ)) :
    verifySignedLink hmac key (some expires) (some signature) secret now = .refused .expired := by
  have hexpired := (lt_seconds_iff double now).mpr hpast
  simp only [verifySignedLink]
  rw [if_neg (not_or.mpr ⟨hexpires, hsignature⟩), hnumber, if_neg (by simp [JsNumber.isFinite]),
    if_pos hexpired]

/-- A signature is accepted for the key and the number it was issued for only. -/
theorem eq_of_accepted {hmac : Hmac} {key other expires secret : String} {issued : JsNumber}
    {now : ClockReading}
    (h : verifySignedLink hmac other (some expires) (some (sign hmac key issued secret)) secret
      now = .ok) : other = key ∧ ofText expires = issued := by
  obtain ⟨-, double, hnumber, -, hsignature⟩ := (verifySignedLink_eq_ok_iff _ _ _ _ _ _).mp h
  obtain ⟨hkey, hissued⟩ := sign_injective hsignature
  exact ⟨hkey.symm, hnumber.trans hissued.symm⟩

/-! ### A link from its minting on -/

/-- The expiry of a minted link. Assumes: a lifetime that is a safe integer. The sum is exact up to
the safe integers, and above them it may be rounded. -/
theorem expires_cases (hmac : Hmac) (key secret : String) {ttl : ℕ} (httl : ttl < 2 ^ 53)
    (now : ClockReading) :
    ∃ double, (createSignedLink hmac key secret (ofRat ttl) now).expires = .finite double ∧
      (|now.ms / 1000 + (ttl : ℤ)| ≤ 2 ^ 53 ∧ double.value = (now.ms / 1000 + ttl : ℤ) ∨
        2 ^ 53 < now.ms / 1000 + (ttl : ℤ) ∧ 2 ^ 53 - 3 ≤ double.value ∧
          double.value ≤ 2 ^ 55) := by
  have hseconds := abs_le.mp (abs_seconds_le now)
  have hsafeNow : |now.ms / 1000| ≤ 2 ^ 53 := (abs_seconds_le now).trans (by norm_num)
  have hsafeTtl : |(ttl : ℤ)| ≤ 2 ^ 53 := by
    rw [abs_of_nonneg (Int.natCast_nonneg ttl)]
    exact_mod_cast httl.le
  have hsum : (createSignedLink hmac key secret (ofRat ttl) now).expires =
      ofRat ((now.ms / 1000 + ttl : ℤ) : ℚ) := by
    have hcast : ((ttl : ℕ) : ℚ) = ((ttl : ℤ) : ℚ) := (Int.cast_natCast ttl).symm
    show now.seconds.add (ofRat ttl) = _
    rw [seconds_eq, hcast, ofRat_intCast hsafeNow, ofRat_intCast hsafeTtl]
    show ofRat (((now.ms / 1000 : ℤ) : ℚ) + ((ttl : ℤ) : ℚ)) = _
    rw [Int.cast_add]
  rw [hsum]
  by_cases hexact : |now.ms / 1000 + (ttl : ℤ)| ≤ 2 ^ 53
  · exact ⟨_, ofRat_intCast hexact, Or.inl ⟨hexact, rfl⟩⟩
  · have hlarge : 2 ^ 53 < now.ms / 1000 + (ttl : ℤ) := by
      by_contra hsmall
      exact hexact (abs_le.mpr ⟨by omega, by omega⟩)
    have hbelow : now.ms / 1000 + (ttl : ℤ) < 2 ^ 54 := by omega
    have hlargeCast : (2 : ℚ) ^ 53 < (now.ms / 1000 + ttl : ℤ) := by exact_mod_cast hlarge
    have hbelowCast : ((now.ms / 1000 + ttl : ℤ) : ℚ) < 2 ^ 54 := by exact_mod_cast hbelow
    have habs : |((now.ms / 1000 + ttl : ℤ) : ℚ)| = (now.ms / 1000 + ttl : ℤ) :=
      abs_of_pos (lt_trans (by norm_num) hlargeCast)
    obtain ⟨double, hdouble, hnear⟩ := exists_ofRat_eq
      (show |((now.ms / 1000 + ttl : ℤ) : ℚ)| ≤ 2 ^ 100 by
        rw [habs]
        exact hbelowCast.le.trans (by norm_num))
    rw [habs, abs_le] at hnear
    refine ⟨double, hdouble, Or.inr ⟨hlarge, ?_, ?_⟩⟩
    · linarith [hnear.1]
    · linarith [hnear.2]

/-- The expiry of a minted link is a finite number of ordinary magnitude, and the clock compares
with it as with the exact sum. Assumes: a lifetime that is a safe integer. No clock gets to the sums
that are rounded. -/
theorem expires_createSignedLink (hmac : Hmac) (key secret : String) {ttl : ℕ} (httl : ttl < 2 ^ 53)
    (now : ClockReading) :
    ∃ double, (createSignedLink hmac key secret (ofRat ttl) now).expires = .finite double ∧
      (double.value = 0 ∨ 1 ≤ |double.value|) ∧ |double.value| ≤ 10 ^ 20 ∧
      ∀ later : ClockReading, ((later.ms / 1000 : ℤ) : ℚ) ≤ double.value ↔
        later.ms / 1000 ≤ now.ms / 1000 + ttl := by
  obtain ⟨double, hexpires, ⟨hexact, hvalue⟩ | ⟨hlarge, hhigh, hlow⟩⟩ :=
    expires_cases hmac key secret httl now
  · refine ⟨double, hexpires, ?_, ?_, fun later ↦ ?_⟩
    · rw [hvalue]
      by_cases hzero : now.ms / 1000 + (ttl : ℤ) = 0
      · exact Or.inl (by rw [hzero, Int.cast_zero])
      · exact Or.inr (by exact_mod_cast Int.one_le_abs hzero)
    · have hcast : |((now.ms / 1000 + ttl : ℤ) : ℚ)| ≤ 2 ^ 53 := by exact_mod_cast hexact
      rw [hvalue]
      exact hcast.trans (by norm_num)
    · rw [hvalue]
      exact Int.cast_le
  · have hnonneg : 0 ≤ double.value := le_trans (by norm_num) hhigh
    refine ⟨double, hexpires, Or.inr ?_, ?_, fun later ↦ ?_⟩
    · rw [abs_of_nonneg hnonneg]
      exact le_trans (by norm_num) hhigh
    · rw [abs_of_nonneg hnonneg]
      exact hlow.trans (by norm_num)
    · have hclock := (abs_le.mp (abs_seconds_le later)).2
      have hclockCast : ((later.ms / 1000 : ℤ) : ℚ) ≤ 8640000000000 := by exact_mod_cast hclock
      constructor
      · intro
        omega
      · intro
        linarith

theorem dateOf_finite_isSome_iff (double : Double) :
    (dateOf (.finite double)).isSome = true ↔ |double.value| ≤ (maxTimeMs : ℤ) := by
  by_cases hrange : |double.value| ≤ (maxTimeMs : ℤ)
  · rw [dateOf, dif_pos hrange]
    exact iff_of_true rfl hrange
  · rw [dateOf, dif_neg hrange]
    exact iff_of_false Bool.false_ne_true hrange

/-- `new Date(link.expires * 1000)` of a minted link is valid when the link expires before the end
of time. Assumes: a lifetime that is a safe integer. -/
theorem dateOf_expires_isSome_iff (hmac : Hmac) (key secret : String) {ttl : ℕ}
    (httl : ttl < 2 ^ 53) (now : ClockReading) :
    (dateOf ((createSignedLink hmac key secret (ofRat ttl) now).expires.mul
        (ofRat (1000 : ℤ)))).isSome = true ↔ now.ms / 1000 + (ttl : ℤ) ≤ 8640000000000 := by
  have hseconds := abs_le.mp (abs_seconds_le now)
  have hmax : ((maxTimeMs : ℤ) : ℚ) = 8640000000000000 := by norm_num [maxTimeMs]
  obtain ⟨double, hexpires, hcases⟩ := expires_cases hmac key secret httl now
  have hproduct : (JsNumber.finite double).mul (ofRat (1000 : ℤ)) =
      ofRat (double.value * (1000 : ℤ)) := by
    rw [ofRat_intCast (by norm_num)]
    rfl
  rw [hexpires, hproduct]
  by_cases hend : now.ms / 1000 + (ttl : ℤ) ≤ 8640000000000
  · obtain ⟨-, hvalue⟩ | ⟨hlarge, -⟩ := hcases
    · have hbound : |(now.ms / 1000 + (ttl : ℤ)) * 1000| ≤ 8640000000000000 :=
        abs_le.mpr ⟨by omega, by omega⟩
      refine iff_of_true ?_ hend
      rw [hvalue, ← Int.cast_mul, ofRat_intCast (hbound.trans (by norm_num)),
        dateOf_finite_isSome_iff, hmax]
      show |(((now.ms / 1000 + (ttl : ℤ)) * 1000 : ℤ) : ℚ)| ≤ 8640000000000000
      exact_mod_cast hbound
    · omega
  · have hhigh : (8640000000001 : ℚ) ≤ double.value := by
      obtain ⟨-, hvalue⟩ | ⟨-, hvalue, -⟩ := hcases
      · rw [hvalue]
        exact_mod_cast Int.not_le.mp hend
      · exact le_trans (by norm_num) hvalue
    have hlow : double.value ≤ 2 ^ 55 := by
      obtain ⟨hexact, hvalue⟩ | ⟨-, -, hvalue⟩ := hcases
      · have hcast : ((now.ms / 1000 + ttl : ℤ) : ℚ) ≤ 2 ^ 53 := by
          exact_mod_cast (abs_le.mp hexact).2
        rw [hvalue]
        exact hcast.trans (by norm_num)
      · exact hvalue
    have hpos : 0 ≤ double.value * (1000 : ℤ) :=
      mul_nonneg (le_trans (by norm_num) hhigh) (by norm_num)
    have hcast : ((1000 : ℤ) : ℚ) = 1000 := by norm_num
    obtain ⟨rounded, hrounded, hnear⟩ := exists_ofRat_eq
      (show |double.value * (1000 : ℤ)| ≤ 2 ^ 100 by
        rw [abs_of_nonneg hpos, hcast]
        linarith)
    rw [abs_of_nonneg hpos, abs_le, hcast] at hnear
    refine iff_of_false ?_ hend
    rw [hrounded, dateOf_finite_isSome_iff, hmax, not_le]
    exact lt_of_lt_of_le (by linarith [hnear.1]) (le_abs_self _)

/-- The fields of a signed query are read back. Assumes: texts without a character that means
something in a query. -/
theorem text_parse_signedQuery {link : SignedLink} (hexpires : Plain (toText link.expires).toList)
    (hsignature : Plain link.signature.toList) :
    (parse (signedQuery link)).text "expires" = some (toText link.expires) ∧
      (parse (signedQuery link)).text "signature" = some link.signature := by
  have hfirst : Plain "expires".toList := forall_mem_of_all (by decide)
  have hsecond : Plain "signature".toList := forall_mem_of_all (by decide)
  have hquery : signedQuery link = String.ofList ("expires".toList ++
      '=' :: (toText link.expires).toList ++
        '&' :: ("signature".toList ++ '=' :: link.signature.toList)) := by
    apply String.toList_injective
    rw [String.toList_ofList, signedQuery, String.toList_append, String.toList_append,
      String.toList_append]
    simp
  rw [hquery, parse_pair hfirst hexpires hsecond hsignature]
  simp [Query.text]

theorem plain_sign (hmac : Hmac) (key : String) (expires : JsNumber) (secret : String) :
    Plain (sign hmac key expires secret).toList :=
  plain_of_forall (hmac.hex secret _) (forall_mem_of_all (by decide))

/-- The query of a minted link is read back. Assumes: a lifetime that is a safe integer. -/
theorem text_parse_createSignedLink (hmac : Hmac) (key secret : String) {ttl : ℕ}
    (httl : ttl < 2 ^ 53) (now : ClockReading) :
    let link := createSignedLink hmac key secret (ofRat ttl) now
    (parse (signedQuery link)).text "expires" = some (toText link.expires) ∧
      (parse (signedQuery link)).text "signature" = some link.signature := by
  obtain ⟨double, hexpires, hordinary, hbound, -⟩ :=
    expires_createSignedLink hmac key secret httl now
  have hplain : Plain (toText (.finite double)).toList := by
    rw [toText, String.toList_ofList]
    exact plain_of_forall (toChars_plain hordinary hbound) (forall_mem_of_all (by decide))
  intro link
  apply text_parse_signedQuery
  · show Plain (toText (createSignedLink hmac key secret (ofRat ttl) now).expires).toList
    rw [hexpires]
    exact hplain
  · exact plain_sign hmac key _ secret

/-- A minted link, taken through its query, is accepted up to its last second and has expired from
then on. Assumes: a lifetime that is a safe integer. -/
theorem verifySignedLink_createSignedLink (hmac : Hmac) (key secret : String) {ttl : ℕ}
    (httl : ttl < 2 ^ 53) (now later : ClockReading) :
    let query := parse (signedQuery (createSignedLink hmac key secret (ofRat ttl) now))
    verifySignedLink hmac key (query.text "expires") (query.text "signature") secret later =
      if later.ms / 1000 ≤ now.ms / 1000 + ttl then .ok else .refused .expired := by
  obtain ⟨double, hexpires, -, -, hclock⟩ := expires_createSignedLink hmac key secret httl now
  have hsignature : (createSignedLink hmac key secret (ofRat ttl) now).signature =
      sign hmac key (.finite double) secret := by rw [← hexpires]; rfl
  intro query
  obtain ⟨htext, hsigned⟩ := text_parse_createSignedLink hmac key secret httl now
  rw [hexpires] at htext
  rw [hsignature] at hsigned
  rw [htext, hsigned]
  split_ifs with hcurrent
  · exact (verifySignedLink_eq_ok_iff _ _ _ _ _ _).mpr
      ⟨toText_ne_empty _, double, ofText_toText _, (hclock later).mpr hcurrent, rfl⟩
  · refine verifySignedLink_of_past (toText_ne_empty _) (hmac.nonempty secret _)
      (ofText_toText (.finite double)) ?_
    rw [← not_le, hclock later]
    exact hcurrent

/-! ### Recorded digests -/

/-- The HMAC-SHA256 of one message under `a-test-secret`. -/
def recordedSignature : String :=
  "39f28c31e6fd5974f9d9d265cb98bd64a2de215082c70801af70751a6ca0e3a7"

/-- Messages with their HMAC-SHA256 under `a-test-secret`. -/
def recordedDigests : List (String × String) := [
  (signedText "outputs/a.png" (ofRat 1700000900), recordedSignature),
  (signedText "outputs/Q3 café-report-0a1b2c3d.json" (ofRat 1700000900),
    "e4489888890ca18f83775dd67bc6efeb66e588e5b6c8f9f3c948e3ddf179ba44")]

/-- A message in unary. -/
def unary (message : String) : String :=
  String.ofList ('b' :: List.replicate (Encodable.encode (message.toList.map Char.toNat)) 'a')

theorem unary_injective : Function.Injective unary := by
  intro first second h
  have hchars := String.ofList_injective h
  have hcount := congrArg List.length (List.cons.inj hchars).2
  rw [List.length_replicate, List.length_replicate] at hcount
  have hcodes := Encodable.encode_injective hcount
  exact String.toList_injective (List.map_injective_iff.mpr (fun _ _ ↦ Char.toNat_inj.mp) hcodes)

theorem mem_of_lookup_recordedDigests {message digest : String}
    (h : recordedDigests.lookup message = some digest) : (message, digest) ∈ recordedDigests := by
  obtain ⟨before, after, hentries, -⟩ := List.lookup_eq_some_iff.mp h
  rw [hentries]
  simp

theorem ne_unary_of_mem {entry : String × String} (h : entry ∈ recordedDigests)
    (message : String) : entry.2 ≠ unary message := by
  intro heq
  have hfirst : ∀ entry ∈ recordedDigests, entry.2.toList.head? ≠ some 'b' := by decide +kernel
  apply hfirst entry h
  rw [heq, unary, String.toList_ofList]
  rfl

/-- The recorded digests, and one in unary for every other message. -/
def recordedDigest (secret message : String) : String :=
  if secret = "a-test-secret" then (recordedDigests.lookup message).getD (unary message)
  else unary message

theorem recordedDigest_injective (secret : String) :
    Function.Injective (recordedDigest secret) := by
  intro first second h
  rw [recordedDigest, recordedDigest] at h
  split_ifs at h
  · cases hfirst : recordedDigests.lookup first with
    | none =>
      cases hsecond : recordedDigests.lookup second with
      | none =>
        rw [hfirst, hsecond] at h
        exact unary_injective h
      | some digest =>
        rw [hfirst, hsecond] at h
        exact absurd h.symm (ne_unary_of_mem (mem_of_lookup_recordedDigests hsecond) first)
    | some digest =>
      have hmem := mem_of_lookup_recordedDigests hfirst
      cases hsecond : recordedDigests.lookup second with
      | none =>
        rw [hfirst, hsecond] at h
        exact absurd h (ne_unary_of_mem hmem second)
      | some other =>
        rw [hfirst, hsecond] at h
        have hone : ∀ entry ∈ recordedDigests, ∀ other ∈ recordedDigests, entry.2 = other.2 →
            entry.1 = other.1 := by decide +kernel
        exact hone _ hmem _ (mem_of_lookup_recordedDigests hsecond) h
  · exact unary_injective h

/-- A digest is recorded or in unary. -/
theorem recordedDigest_cases (secret message : String) :
    (∃ entry ∈ recordedDigests, recordedDigest secret message = entry.2) ∨
      recordedDigest secret message = unary message := by
  rw [recordedDigest]
  split_ifs
  · cases hlookup : recordedDigests.lookup message with
    | none => exact Or.inr rfl
    | some digest => exact Or.inl ⟨_, mem_of_lookup_recordedDigests hlookup, rfl⟩
  · exact Or.inr rfl

theorem recordedDigest_of_lookup {message digest : String}
    (h : recordedDigests.lookup message = some digest) :
    recordedDigest "a-test-secret" message = digest := by
  rw [recordedDigest, if_pos rfl, h, Option.getD_some]

/-- A digest that is the real one where it is recorded. -/
def Hmac.recorded : Hmac where
  digest := recordedDigest
  injective := recordedDigest_injective
  hex secret message c hc := by
    rcases recordedDigest_cases secret message with ⟨entry, hentry, heq⟩ | heq
    · have hall : ∀ entry ∈ recordedDigests, (entry.2.toList.all fun c ↦
          decide (c.isDigit = true ∨ c ∈ ['a', 'b', 'c', 'd', 'e', 'f'])) = true := by
        decide +kernel
      exact forall_mem_of_all (hall entry hentry) c (heq ▸ hc)
    · rw [heq, unary, String.toList_ofList] at hc
      rcases List.mem_cons.mp hc with rfl | hrest
      · exact Or.inr (by decide)
      · rw [List.eq_of_mem_replicate hrest]
        exact Or.inr (by decide)
  nonempty secret message hempty := by
    rcases recordedDigest_cases secret message with ⟨entry, hentry, heq⟩ | heq
    · have hall : ∀ entry ∈ recordedDigests, entry.2 ≠ "" := by decide +kernel
      exact hall entry hentry (heq.symm.trans hempty)
    · have hchars := congrArg String.toList (heq.symm.trans hempty)
      rw [unary, String.toList_ofList] at hchars
      cases hchars

end FileForge.Files.Signing
