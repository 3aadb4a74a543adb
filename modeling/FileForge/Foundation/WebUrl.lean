import FileForge.Foundation.EcmaText
import FileForge.Foundation.PosixPath
import FileForge.Foundation.QueryString

/-!
# Paths of web addresses

What a client makes of a reference that begins with one slash, such as `/a/b?c#d`, by the rules for
addresses of the web: white space around it and line ends inside it go, `#` starts the fragment and
`?` the query, a backslash is a slash, dot segments are resolved, and what may not stand in a path
or a query is percent-encoded. A `%` is left as it is.

A server that decodes the segments of the path gets back what was written when nothing in them means
something in an address (`walk_of_not_dot`, `mapM_carried`). Whatever it gets otherwise is shorter,
counted in bytes: an escape is longer than the byte it stands for, and a dot segment goes together
with its slash (`literal_of_byteLength_le`).
-/

set_option autoImplicit false
set_option relaxedAutoImplicit false

namespace FileForge.Foundation.WebUrl

open EcmaNumber EcmaText QueryString

/-! ### Percent-encoding -/

/-- The query percent-encode set. -/
def inQuerySet (c : Char) : Bool :=
  c.toNat ≤ 0x1F || 0x7E < c.toNat || [0x20, 0x22, 0x23, 0x3C, 0x3E].contains c.toNat

/-- The special-query percent-encode set: the apostrophe too. -/
def inSpecialQuerySet (c : Char) : Bool := inQuerySet c || c.toNat = 0x27

/-- The path percent-encode set. -/
def inPathSet (c : Char) : Bool :=
  inQuerySet c || [0x3F, 0x5E, 0x60, 0x7B, 0x7D].contains c.toNat

/-- A hexadecimal digit in upper case. -/
def hexDigit (n : ℕ) : Char := (Nat.digitChar n).toUpper

def percentEncodeByte (byte : UInt8) : List Char :=
  ['%', hexDigit (byte.toNat / 16), hexDigit (byte.toNat % 16)]

/-- UTF-8 percent-encoding of one character. -/
def percentEncodeChar (set : Char → Bool) (c : Char) : List Char :=
  if set c then (String.utf8EncodeChar c).flatMap percentEncodeByte else [c]

/-- UTF-8 percent-encoding. -/
def percentEncode (set : Char → Bool) (chars : List Char) : List Char :=
  chars.flatMap (percentEncodeChar set)

/-! ### The path of a reference -/

def isBackslash (c : Char) : Bool := c.toNat = 0x5C

/-- A backslash is a slash. -/
def slashed (chars : List Char) : List Char := chars.map fun c ↦ if isBackslash c then '/' else c

/-- The segments of a path. -/
def splitPath (chars : List Char) : List (List Char) := (slashed chars).splitOn '/'

/-- `.`, also with its dot escaped. -/
def isSingleDot (segment : List Char) : Bool :=
  ["." , "%2e"].any fun dots ↦ dots.toList = segment.map Char.toLower

/-- `..`, also with its dots escaped. -/
def isDoubleDot (segment : List Char) : Bool :=
  ["..", ".%2e", "%2e.", "%2e%2e"].any fun dots ↦ dots.toList = segment.map Char.toLower

/-- The segments are added to a path. A dot segment at the end leaves an empty segment. -/
def walk (path : List (List Char)) : List (List Char) → List (List Char)
  | [] => path
  | [last] =>
    if isDoubleDot last then path.dropLast ++ [[]]
    else if isSingleDot last then path ++ [[]]
    else path ++ [last]
  | segment :: next :: rest =>
    if isDoubleDot segment then walk path.dropLast (next :: rest)
    else if isSingleDot segment then walk path (next :: rest)
    else walk (path ++ [segment]) (next :: rest)

/-- Segments, with a slash before each. -/
def joined (segments : List (List Char)) : List Char := segments.flatMap ('/' :: ·)

/-- What is requested for a reference. -/
structure Target where
  pathname : List Char
  query : Option (List Char)
  deriving DecidableEq, Repr

/-- What stands before and after the first `?`, and before the first `#`. The dot segments are those
of the text: an encoded segment is one when the text is, as neither a dot nor a `%` is encoded. -/
def targetOf (afterSlash : List Char) : Target where
  pathname := joined ((walk [] (splitPath
    ((afterSlash.takeWhile (· ≠ '#')).takeWhile (· ≠ '?')))).map (percentEncode inPathSet))
  query := match (afterSlash.takeWhile (· ≠ '#')).dropWhile (· ≠ '?') with
    | [] => none
    | _ :: query => some (percentEncode inSpecialQuerySet query)

def isTabOrLineEnd (c : Char) : Bool := c.toNat = 0x9 || c.toNat = 0xA || c.toNat = 0xD

/-- A control character of ASCII, or a space. -/
def isOuterSpace (c : Char) : Bool := c.toNat ≤ 0x20

/-- A slash or a backslash. -/
def isSlash (c : Char) : Bool := c = '/' || isBackslash c

/-- What is requested for a reference that begins with one slash, `none` for any other. -/
def resolve (reference : List Char) : Option Target :=
  match (stripChars isOuterSpace reference).filter fun c ↦ !isTabOrLineEnd c with
  | [] => none
  | first :: rest =>
    if isSlash first && !rest.head?.any isSlash then some (targetOf rest) else none

example : resolve "/a/./b c\\..\\%41?x= #y".toList =
    some ⟨"/a/%41".toList, some "x=%20".toList⟩ := by
  decide

/-! ### Lengths in bytes -/

/-- The length of a text in UTF-8. -/
def byteLength (chars : List Char) : ℕ := (chars.flatMap String.utf8EncodeChar).length

@[simp] theorem byteLength_nil : byteLength [] = 0 := rfl

@[simp] theorem byteLength_append (first second : List Char) :
    byteLength (first ++ second) = byteLength first + byteLength second := by
  rw [byteLength, List.flatMap_append, List.length_append]
  rfl

theorem byteLength_cons (c : Char) (rest : List Char) :
    byteLength (c :: rest) = c.utf8Size + byteLength rest := by
  rw [byteLength, List.flatMap_cons, List.length_append, String.length_utf8EncodeChar]
  rfl

/-- A slash and a backslash have one byte each. -/
theorem utf8Size_of_isBackslash {c : Char} (h : isBackslash c = true) : c.utf8Size = 1 := by
  have hc : c.toNat = 0x5C := of_decide_eq_true h
  have heq : c = Char.ofNat 0x5C := by
    rw [← hc, Char.ofNat_toNat]
  rw [heq]
  rfl

theorem byteLength_slashed (chars : List Char) : byteLength (slashed chars) = byteLength chars := by
  induction chars with
  | nil => rfl
  | cons c rest ih =>
    have hcons : slashed (c :: rest) = (if isBackslash c then '/' else c) :: slashed rest := rfl
    rw [hcons, byteLength_cons, byteLength_cons, ih]
    by_cases hc : isBackslash c = true
    · rw [if_pos hc, utf8Size_of_isBackslash hc]
      rfl
    · rw [if_neg hc]

/-- Without a backslash nothing is replaced. -/
theorem slashed_eq_self_iff (chars : List Char) :
    slashed chars = chars ↔ ∀ c ∈ chars, isBackslash c = false := by
  constructor
  · intro h c hc
    by_contra hbackslash
    have hslashed : c ∈ slashed chars := by
      rw [h]
      exact hc
    obtain ⟨original, -, horiginal⟩ := List.mem_map.mp hslashed
    rw [Bool.not_eq_false] at hbackslash
    split_ifs at horiginal with hother
    · rw [← horiginal] at hbackslash
      exact absurd hbackslash (by decide)
    · rw [horiginal] at hother
      exact hother hbackslash
  · intro h
    rw [slashed]
    conv_rhs => rw [← List.map_id chars]
    apply List.map_congr_left
    intro c hc
    rw [h c hc]
    rfl

theorem joined_append (first second : List (List Char)) :
    joined (first ++ second) = joined first ++ joined second := List.flatMap_append

theorem joined_cons (segment : List Char) (segments : List (List Char)) :
    joined (segment :: segments) = '/' :: (segment ++ joined segments) := List.flatMap_cons

/-- Slashes before the segments are one slash and slashes between them. -/
theorem joined_eq_intercalate {segments : List (List Char)} (h : segments ≠ []) :
    joined segments = '/' :: ['/'].intercalate segments := by
  induction segments with
  | nil => exact absurd rfl h
  | cons segment rest ih =>
    cases rest with
    | nil => simp [joined]
    | cons next rest =>
      rw [joined_cons, ih (List.cons_ne_nil next rest), List.intercalate_cons_cons]
      simp

/-- The segments of a text, with their slashes, are the text. -/
theorem joined_splitOn (chars : List Char) : joined (chars.splitOn '/') = '/' :: chars := by
  rw [joined_eq_intercalate (List.splitOn_ne_nil '/' chars), List.intercalate_splitOn]

theorem byteLength_slash_cons (chars : List Char) :
    byteLength ('/' :: chars) = 1 + byteLength chars := byteLength_cons '/' chars

theorem byteLength_joined_splitPath (chars : List Char) :
    byteLength (joined (splitPath chars)) = 1 + byteLength chars := by
  rw [splitPath, joined_splitOn, byteLength_slash_cons, byteLength_slashed]

/-- Assumes: no slash in a segment. What is joined comes apart into the segments. -/
theorem splitOn_joined {segments : List (List Char)} (h : ∀ segment ∈ segments, '/' ∉ segment) :
    (joined segments).splitOn '/' = [] :: segments := by
  by_cases hempty : segments = []
  · rw [hempty]
    rfl
  · have hslash := List.splitOn_append_cons_self (a := '/') [] (['/'].intercalate segments)
    rw [joined_eq_intercalate hempty]
    rw [List.nil_append, List.splitOn_nil, List.splitOn_intercalate '/' h hempty] at hslash
    exact hslash

/-- The characters of a text other than the slash are those of its segments. -/
theorem mem_splitOn_iff {chars : List Char} {c : Char} (hc : c ≠ '/') :
    (∃ segment ∈ chars.splitOn '/', c ∈ segment) ↔ c ∈ chars := by
  have hjoined : c ∈ joined (chars.splitOn '/') ↔ c ∈ chars := by
    rw [joined_splitOn, List.mem_cons]
    exact or_iff_right hc
  rw [← hjoined, joined, List.mem_flatMap]
  constructor
  · rintro ⟨segment, hsegment, hmem⟩
    exact ⟨segment, hsegment, List.mem_cons_of_mem '/' hmem⟩
  · rintro ⟨segment, hsegment, hmem⟩
    exact ⟨segment, hsegment, (List.mem_cons.mp hmem).resolve_left hc⟩

/-! ### Dot segments -/

/-- A segment that is resolved and not kept. -/
def isDot (segment : List Char) : Bool := isSingleDot segment || isDoubleDot segment

/-- Without dot segments the segments are added as they are. -/
theorem walk_of_not_dot {segments : List (List Char)}
    (h : ∀ segment ∈ segments, isDot segment = false) (path : List (List Char)) :
    walk path segments = path ++ segments := by
  induction segments generalizing path with
  | nil => rw [walk, List.append_nil]
  | cons segment rest ih =>
    obtain ⟨hsingle, hdouble⟩ := Bool.or_eq_false_iff.mp (h segment List.mem_cons_self)
    have hrest := ih fun later hlater ↦ h later (List.mem_cons_of_mem segment hlater)
    cases rest with
    | nil => simp [walk, hsingle, hdouble]
    | cons next rest => simp [walk, hsingle, hdouble, hrest]

theorem byteLength_joined_dropLast_le (path : List (List Char)) :
    byteLength (joined path.dropLast) ≤ byteLength (joined path) := by
  rcases List.eq_nil_or_concat path with rfl | ⟨start, last, rfl⟩
  · exact Nat.le_refl _
  · rw [List.concat_eq_append, List.dropLast_concat, joined_append, byteLength_append]
    exact Nat.le_add_right _ _

/-- The bytes of one more segment, with its slash. -/
theorem byteLength_joined_cons (segment : List Char) (segments : List (List Char)) :
    byteLength (joined (segment :: segments)) =
      1 + byteLength segment + byteLength (joined segments) := by
  rw [joined_cons, byteLength_cons, byteLength_append, Nat.add_assoc]
  rfl

theorem byteLength_joined_concat (segments : List (List Char)) (segment : List Char) :
    byteLength (joined (segments ++ [segment])) =
      byteLength (joined segments) + (1 + byteLength segment) := by
  rw [joined_append, byteLength_append, byteLength_joined_cons]
  rfl

theorem byteLength_pos {chars : List Char} (h : chars ≠ []) : 0 < byteLength chars := by
  obtain ⟨c, rest, rfl⟩ := List.exists_cons_of_ne_nil h
  rw [byteLength_cons]
  exact Nat.add_pos_left c.utf8Size_pos _

/-- A dot segment has at least one byte. -/
theorem byteLength_pos_of_isDot {segment : List Char} (h : isDot segment = true) :
    0 < byteLength segment := by
  apply byteLength_pos
  rintro rfl
  exact absurd h (by decide)

/-- Every dot segment costs at least one byte. -/
theorem byteLength_walk_le (path segments : List (List Char)) :
    byteLength (joined (walk path segments)) + segments.countP isDot ≤
      byteLength (joined path) + byteLength (joined segments) := by
  induction segments generalizing path with
  | nil => exact Nat.le_refl _
  | cons segment rest ih =>
    have hdropLast := byteLength_joined_dropLast_le path
    have hlength := byteLength_joined_cons segment rest
    by_cases hdot : isDot segment = true
    · have hpos := byteLength_pos_of_isDot hdot
      have hcount : (segment :: rest).countP isDot = rest.countP isDot + 1 :=
        List.countP_cons_of_pos hdot
      cases rest with
      | nil =>
        have hwalk : byteLength (joined (walk path [segment])) ≤ byteLength (joined path) + 1 := by
          unfold walk
          split_ifs with hdouble hsingle
          · rw [byteLength_joined_concat]
            exact Nat.add_le_add_right hdropLast _
          · rw [byteLength_joined_concat]
            exact Nat.le_refl _
          · rw [isDot, Bool.or_eq_true] at hdot
            exact absurd hdot (not_or.mpr ⟨hsingle, hdouble⟩)
        rw [List.countP_nil] at hcount
        omega
      | cons next rest =>
        have hwalk : byteLength (joined (walk path (segment :: next :: rest))) +
            (next :: rest).countP isDot ≤
              byteLength (joined path) + byteLength (joined (next :: rest)) := by
          unfold walk
          split_ifs with hdouble hsingle
          · exact Nat.le_trans (ih path.dropLast) (Nat.add_le_add_right hdropLast _)
          · exact ih path
          · rw [isDot, Bool.or_eq_true] at hdot
            exact absurd hdot (not_or.mpr ⟨hsingle, hdouble⟩)
        omega
    · have hcount : (segment :: rest).countP isDot = rest.countP isDot :=
        List.countP_cons_of_neg hdot
      have hwalk : walk path (segment :: rest) = walk (path ++ [segment]) rest := by
        rw [isDot, Bool.or_eq_true, not_or] at hdot
        cases rest with
        | nil => simp [walk, hdot]
        | cons next rest => simp [walk, hdot]
      have hrest := ih (path ++ [segment])
      rw [byteLength_joined_concat] at hrest
      rw [hwalk, hcount, hlength]
      omega

/-! ### Decoding what was encoded -/

theorem digitOf_hexDigit : ∀ n < 16, digitOf 16 (hexDigit n) = some n := by
  decide

/-- An escape that the encoder writes. -/
theorem escapedBytes_percentEncodeByte (byte : UInt8) (rest : List Char) :
    escapedBytes (percentEncodeByte byte ++ rest) = (escapedBytes rest).map (byte :: ·) := by
  have hlow : byte.toNat % 16 < 16 := Nat.mod_lt _ (by decide)
  have hhigh : byte.toNat / 16 < 16 := Nat.div_lt_of_lt_mul byte.toNat_lt
  have hbyte : UInt8.ofNat (16 * (byte.toNat / 16) + byte.toNat % 16) = byte := by
    rw [Nat.div_add_mod]
    exact UInt8.ofNat_toNat
  show escapedBytes ('%' :: hexDigit _ :: hexDigit _ :: rest) = _
  rw [escapedBytes, digitOf_hexDigit _ hhigh, digitOf_hexDigit _ hlow]
  show (do let bytes ← escapedBytes rest; some (UInt8.ofNat _ :: bytes)) = _
  rw [hbyte]
  cases escapedBytes rest <;> rfl

theorem escapedBytes_flatMap (bytes : List UInt8) (rest : List Char) :
    escapedBytes (bytes.flatMap percentEncodeByte ++ rest) =
      (escapedBytes rest).map (bytes ++ ·) := by
  induction bytes with
  | nil => simp
  | cons byte bytes ih =>
    rw [List.flatMap_cons, List.append_assoc, escapedBytes_percentEncodeByte, ih, Option.map_map]
    rfl

/-- A character other than `%` stands for itself. -/
theorem escapedBytes_cons {c : Char} (hc : c ≠ '%') (rest : List Char) :
    escapedBytes (c :: rest) = (escapedBytes rest).map (String.utf8EncodeChar c ++ ·) := by
  rw [escapedBytes]
  · cases escapedBytes rest <;> rfl
  · exact fun _ _ _ heq _ ↦ hc heq
  · exact fun heq ↦ hc heq

section Encoded

variable {set : Char → Bool}

/-- Encoded or not, a character other than `%` is decoded to its bytes. -/
theorem escapedBytes_percentEncodeChar {c : Char} (hc : c ≠ '%') (rest : List Char) :
    escapedBytes (percentEncodeChar set c ++ rest) =
      (escapedBytes rest).map (String.utf8EncodeChar c ++ ·) := by
  unfold percentEncodeChar
  split_ifs with hset
  · exact escapedBytes_flatMap _ rest
  · exact escapedBytes_cons hc rest

/-- Assumes: no `%` in the text. The bytes are those of the text. -/
theorem escapedBytes_percentEncode {chars : List Char} (h : '%' ∉ chars) :
    escapedBytes (percentEncode set chars) = some (chars.flatMap String.utf8EncodeChar) := by
  induction chars with
  | nil => rfl
  | cons c rest ih =>
    have hc : c ≠ '%' := fun hpercent ↦ h (hpercent ▸ List.mem_cons_self)
    have hcons : percentEncode set (c :: rest) =
        percentEncodeChar set c ++ percentEncode set rest := List.flatMap_cons
    rw [hcons, escapedBytes_percentEncodeChar hc,
      ih fun hrest ↦ h (List.mem_cons_of_mem c hrest), List.flatMap_cons]
    rfl

/-- The bytes of a text, as an array. -/
theorem byteArray_eq_utf8Encode (chars : List Char) :
    (⟨(chars.flatMap String.utf8EncodeChar).toArray⟩ : ByteArray) = chars.utf8Encode :=
  ByteArray.ext List.data_toByteArray.symm

/-- Assumes: no `%` in the text. It is decoded to itself. -/
theorem decodeURIComponent_percentEncode {chars : List Char} (h : '%' ∉ chars) :
    decodeURIComponent (percentEncode set chars) = some chars := by
  have htext : String.fromUTF8? chars.utf8Encode = some (String.ofList chars) := by
    rw [String.fromUTF8?, dif_pos ByteArray.isValidUTF8_utf8Encode]
    exact congrArg some (String.toByteArray_inj.mp String.toByteArray_ofList.symm)
  rw [decodeURIComponent, escapedBytes_percentEncode h]
  show (do let text ← String.fromUTF8? ⟨(chars.flatMap String.utf8EncodeChar).toArray⟩
           some text.toList) = some chars
  rw [byteArray_eq_utf8Encode, htext]
  exact congrArg some String.toList_ofList

/-- A character that is encoded becomes a text that begins with a `%`. -/
theorem exists_percentEncodeChar_eq_cons {c : Char} (h : set c = true) :
    ∃ tail, percentEncodeChar set c = '%' :: tail := by
  obtain ⟨byte, bytes, hbytes⟩ := List.exists_cons_of_ne_nil (@String.utf8EncodeChar_ne_nil c)
  rw [percentEncodeChar, if_pos h, hbytes]
  exact ⟨_, rfl⟩

/-- Every character is written. -/
theorem percentEncode_eq_nil {chars : List Char} (h : percentEncode set chars = []) :
    chars = [] := by
  cases chars with
  | nil => rfl
  | cons c rest =>
    have hchar : percentEncodeChar set c = [] :=
      (List.append_eq_nil_iff.mp (List.flatMap_cons.symm.trans h)).1
    by_cases hset : set c = true
    · obtain ⟨tail, htail⟩ := exists_percentEncodeChar_eq_cons hset
      rw [htail] at hchar
      cases hchar
    · rw [percentEncodeChar, if_neg hset] at hchar
      cases hchar

/-- What is encoded begins with a `%`, or with a character that stands for itself. -/
theorem percentEncode_eq_cons {chars tail : List Char} {c : Char} (hc : c ≠ '%')
    (h : percentEncode set chars = c :: tail) :
    ∃ rest, chars = c :: rest ∧ percentEncode set rest = tail := by
  cases chars with
  | nil => cases h
  | cons first rest =>
    have hcons : percentEncode set (first :: rest) =
        percentEncodeChar set first ++ percentEncode set rest := List.flatMap_cons
    rw [hcons] at h
    by_cases hset : set first = true
    · obtain ⟨after, hafter⟩ := exists_percentEncodeChar_eq_cons hset
      rw [hafter] at h
      exact absurd (List.cons.inj h).1.symm hc
    · rw [percentEncodeChar, if_neg hset] at h
      obtain ⟨hfirst, htail⟩ := List.cons.inj h
      exact ⟨rest, by rw [hfirst], htail⟩

/-- A hexadecimal digit is one byte, and it is no `%`. -/
theorem utf8Size_of_digitOf {c : Char} {n : ℕ} (h : digitOf 16 c = some n) :
    c.utf8Size = 1 ∧ c ≠ '%' := by
  have hkind : c.isDigit = true ∨ c.isAlpha = true := by
    by_contra hneither
    obtain ⟨hdigit, halpha⟩ := not_or.mp hneither
    rw [digitOf, if_neg hdigit, if_neg halpha] at h
    cases h
  have hascii : 48 ≤ c.toNat ∧ c.toNat ≤ 122 := by
    rcases hkind with hdigit | halpha
    · have hrange : 48 ≤ c.toNat ∧ c.toNat ≤ 57 := Char.isDigit_iff_toNat.mp hdigit
      omega
    · rcases Bool.or_eq_true_iff.mp halpha with hupper | hlower
      · have hrange := EcmaText.isUpper_iff_toNat.mp hupper
        omega
      · have hrange := EcmaText.isLower_iff_toNat.mp hlower
        omega
  constructor
  · exact EcmaText.utf8Size_eq_one_iff_toNat.mpr (by omega)
  · rintro rfl
    exact absurd hascii.1 (by decide)

/-- An escape that is decoded has two hexadecimal digits, and is one byte. -/
theorem escapedBytes_percent {tail : List Char} {bytes : List UInt8}
    (h : escapedBytes ('%' :: tail) = some bytes) :
    ∃ first second rest high low later, tail = first :: second :: rest ∧
      digitOf 16 first = some high ∧ digitOf 16 second = some low ∧
      escapedBytes rest = some later ∧ bytes.length = later.length + 1 := by
  match tail with
  | [] => cases h
  | [_] => cases h
  | first :: second :: rest =>
    rw [escapedBytes] at h
    obtain ⟨high, hhigh, h⟩ := Option.bind_eq_some_iff.mp h
    obtain ⟨low, hlow, h⟩ := Option.bind_eq_some_iff.mp h
    obtain ⟨later, hlater, h⟩ := Option.bind_eq_some_iff.mp h
    refine ⟨first, second, rest, high, low, later, rfl, hhigh, hlow, hlater, ?_⟩
    rw [← Option.some.inj h, List.length_cons]

/-- Assumes: the encoder leaves a `%` as it is. Every `%` of the text is the start of an escape,
which is two bytes longer than what it stands for. -/
theorem length_escapedBytes (hset : set '%' = false) {chars : List Char} {bytes : List UInt8}
    (h : escapedBytes (percentEncode set chars) = some bytes) :
    bytes.length + 2 * chars.count '%' = byteLength chars := by
  induction hlength : chars.length using Nat.strong_induction_on generalizing chars bytes with
  | _ length ih =>
    cases chars with
    | nil =>
      cases h
      rfl
    | cons c rest =>
      have hcons : percentEncode set (c :: rest) =
          percentEncodeChar set c ++ percentEncode set rest := List.flatMap_cons
      rw [hcons] at h
      by_cases hc : c = '%'
      · subst hc
        rw [percentEncodeChar, if_neg (by rw [hset]; decide)] at h
        obtain ⟨first, second, encoded, high, low, decoded, htail, hhigh, hlow, hdecoded, hbytes⟩ :=
          escapedBytes_percent h
        -- the two digits are characters of the text, as what is encoded begins with a `%`
        obtain ⟨hfirstSize, hfirst⟩ := utf8Size_of_digitOf hhigh
        obtain ⟨hsecondSize, hsecond⟩ := utf8Size_of_digitOf hlow
        obtain ⟨afterFirst, rfl, hafterFirst⟩ := percentEncode_eq_cons hfirst htail
        obtain ⟨afterSecond, rfl, hafterSecond⟩ := percentEncode_eq_cons hsecond hafterFirst
        rw [← hafterSecond] at hdecoded
        have hshorter : afterSecond.length < length := by
          simp only [List.length_cons] at hlength
          omega
        have hrest := ih afterSecond.length hshorter hdecoded rfl
        rw [List.count_cons_self, List.count_cons_of_ne hfirst, List.count_cons_of_ne hsecond,
          byteLength_cons, byteLength_cons, byteLength_cons, hfirstSize, hsecondSize]
        have hpercent : '%'.utf8Size = 1 := rfl
        omega
      · rw [escapedBytes_percentEncodeChar hc] at h
        obtain ⟨later, hlater, hbytes⟩ := Option.map_eq_some_iff.mp h
        have hshorter : rest.length < length := by
          rw [← hlength]
          exact Nat.lt_succ_self _
        have hrest := ih rest.length hshorter hlater rfl
        rw [← hbytes, List.length_append, String.length_utf8EncodeChar,
          List.count_cons_of_ne hc, byteLength_cons]
        omega

/-- The same for the decoded text. -/
theorem byteLength_decodeURIComponent (hset : set '%' = false) {chars decoded : List Char}
    (h : decodeURIComponent (percentEncode set chars) = some decoded) :
    byteLength decoded + 2 * chars.count '%' = byteLength chars := by
  obtain ⟨bytes, hbytes, htext⟩ := Option.bind_eq_some_iff.mp h
  obtain ⟨text, hvalid, hdecoded⟩ := Option.bind_eq_some_iff.mp htext
  have hsame : byteLength decoded = bytes.length := by
    rw [← Option.some.inj hdecoded]
    rw [String.fromUTF8?] at hvalid
    split_ifs at hvalid with hutf8
    have htoByteArray : text.toByteArray = ⟨bytes.toArray⟩ := by
      rw [← Option.some.inj hvalid]
      rfl
    have harray := congrArg ByteArray.data
      ((byteArray_eq_utf8Encode text.toList).trans (String.utf8Encode_toList.trans htoByteArray))
    have hlist : text.toList.flatMap String.utf8EncodeChar = bytes := congrArg Array.toList harray
    rw [byteLength, hlist]
  rw [hsame]
  exact length_escapedBytes hset hbytes

/-- Assumes: no character of the set. Nothing is encoded. -/
theorem percentEncode_eq_self {chars : List Char} (h : ∀ c ∈ chars, set c = false) :
    percentEncode set chars = chars := by
  induction chars with
  | nil => rfl
  | cons c rest ih =>
    have hcons : percentEncode set (c :: rest) =
        percentEncodeChar set c ++ percentEncode set rest := List.flatMap_cons
    have hc : ¬ set c = true := by
      rw [h c List.mem_cons_self]
      exact Bool.false_ne_true
    rw [hcons, ih fun d hd ↦ h d (List.mem_cons_of_mem c hd), percentEncodeChar, if_neg hc]
    rfl

/-- What is encoded without a `%` was not changed. -/
theorem eq_of_percent_not_mem {chars : List Char} (h : '%' ∉ percentEncode set chars) :
    percentEncode set chars = chars := by
  induction chars with
  | nil => rfl
  | cons c rest ih =>
    have hcons : percentEncode set (c :: rest) =
        percentEncodeChar set c ++ percentEncode set rest := List.flatMap_cons
    rw [hcons, List.mem_append, not_or] at h
    have hc : set c ≠ true := fun hset ↦ by
      obtain ⟨tail, htail⟩ := exists_percentEncodeChar_eq_cons hset
      exact h.1 (by rw [htail]; exact List.mem_cons_self)
    rw [hcons, ih h.2, percentEncodeChar, if_neg hc]
    rfl

theorem hexDigit_ne_slash : ∀ n < 16, hexDigit n ≠ '/' := by
  decide

/-- No slash is written for a text that has none. -/
theorem slash_not_mem_percentEncode {chars : List Char} (h : '/' ∉ chars) :
    '/' ∉ percentEncode set chars := by
  intro hmem
  obtain ⟨c, hc, hencoded⟩ := List.mem_flatMap.mp hmem
  unfold percentEncodeChar at hencoded
  split_ifs at hencoded
  · obtain ⟨byte, -, hbyte⟩ := List.mem_flatMap.mp hencoded
    rcases List.mem_cons.mp hbyte with hpercent | hbyte
    · exact absurd hpercent (by decide)
    rcases List.mem_cons.mp hbyte with hhigh | hbyte
    · exact hexDigit_ne_slash _ (Nat.div_lt_of_lt_mul byte.toNat_lt) hhigh.symm
    · exact hexDigit_ne_slash _ (Nat.mod_lt _ (by decide)) (List.mem_singleton.mp hbyte).symm
  · rw [List.mem_singleton.mp hencoded] at h
    exact h hc

end Encoded

/-! ### The segments that a server decodes -/

/-- A segment, encoded by the client and decoded by the server. -/
def carried (segment : List Char) : Option (List Char) :=
  decodeURIComponent (percentEncode inPathSet segment)

/-- What the server decodes of encoded segments. -/
theorem mapM_decodeURIComponent (segments : List (List Char)) :
    (segments.map (percentEncode inPathSet)).mapM decodeURIComponent = segments.mapM carried :=
  List.mapM_map

/-- Assumes: no `%` in a segment. Every segment arrives as it is. -/
theorem mapM_carried {segments : List (List Char)} (h : ∀ segment ∈ segments, '%' ∉ segment) :
    segments.mapM carried = some segments := by
  induction segments with
  | nil => rfl
  | cons segment rest ih =>
    have hfirst : carried segment = some segment :=
      decodeURIComponent_percentEncode (h segment List.mem_cons_self)
    rw [List.mapM_cons, hfirst, ih fun later hlater ↦ h later (List.mem_cons_of_mem segment hlater)]
    rfl

theorem mapM_carried_ne_nil {segments decoded : List (List Char)}
    (h : segments.mapM carried = some decoded) (hne : segments ≠ []) : decoded ≠ [] := by
  obtain ⟨segment, rest, rfl⟩ := List.exists_cons_of_ne_nil hne
  rw [List.mapM_cons] at h
  obtain ⟨first, -, h⟩ := Option.bind_eq_some_iff.mp h
  obtain ⟨others, -, h⟩ := Option.bind_eq_some_iff.mp h
  rw [← Option.some.inj h]
  exact List.cons_ne_nil first others

/-- Every `%` in the segments costs two bytes. -/
theorem byteLength_mapM_carried {segments decoded : List (List Char)}
    (h : segments.mapM carried = some decoded) :
    byteLength (joined decoded) + 2 * (joined segments).count '%' =
      byteLength (joined segments) := by
  induction segments generalizing decoded with
  | nil =>
    cases h
    rfl
  | cons segment rest ih =>
    rw [List.mapM_cons] at h
    obtain ⟨first, hfirst, h⟩ := Option.bind_eq_some_iff.mp h
    obtain ⟨others, hothers, h⟩ := Option.bind_eq_some_iff.mp h
    have hsegment := byteLength_decodeURIComponent (by decide) hfirst
    have hrest := ih hothers
    rw [← Option.some.inj h, byteLength_joined_cons, byteLength_joined_cons, joined_cons,
      List.count_cons_of_ne (by decide), List.count_append]
    omega

/-- What a path is made of. -/
theorem mem_walk {path segments : List (List Char)} {segment : List Char}
    (h : segment ∈ walk path segments) : segment = [] ∨ segment ∈ path ∨ segment ∈ segments := by
  induction segments generalizing path with
  | nil => exact Or.inr (Or.inl h)
  | cons first rest ih =>
    have hkept : segment ∈ path ++ [first] → segment ∈ path ∨ segment ∈ first :: rest := by
      intro hmem
      rcases List.mem_append.mp hmem with hpath | hfirst
      · exact Or.inl hpath
      · exact Or.inr (List.mem_cons.mpr (Or.inl (List.mem_singleton.mp hfirst)))
    cases rest with
    | nil =>
      unfold walk at h
      split_ifs at h with hdouble hsingle
      · rcases List.mem_append.mp h with hpath | hempty
        · exact Or.inr (Or.inl ((List.dropLast_sublist path).mem hpath))
        · exact Or.inl (List.mem_singleton.mp hempty)
      · rcases List.mem_append.mp h with hpath | hempty
        · exact Or.inr (Or.inl hpath)
        · exact Or.inl (List.mem_singleton.mp hempty)
      · exact Or.inr (hkept h)
    | cons next rest =>
      unfold walk at h
      split_ifs at h with hdouble hsingle
      · rcases ih h with hempty | hpath | hrest
        · exact Or.inl hempty
        · exact Or.inr (Or.inl ((List.dropLast_sublist path).mem hpath))
        · exact Or.inr (Or.inr (List.mem_cons_of_mem first hrest))
      · rcases ih h with hempty | hpath | hrest
        · exact Or.inl hempty
        · exact Or.inr (Or.inl hpath)
        · exact Or.inr (Or.inr (List.mem_cons_of_mem first hrest))
      · rcases ih h with hempty | hpath | hrest
        · exact Or.inl hempty
        · exact Or.inr (hkept hpath)
        · exact Or.inr (Or.inr (List.mem_cons_of_mem first hrest))

/-- Assumes: the server has as many bytes as were written. Then there was no dot segment, and no
`%` in what was left of the path. -/
theorem literal_of_byteLength_le {segments decoded : List (List Char)}
    (h : (walk [] segments).mapM carried = some decoded)
    (hle : byteLength (joined segments) ≤ byteLength (joined decoded)) :
    (∀ segment ∈ segments, isDot segment = false) ∧ ∀ segment ∈ segments, '%' ∉ segment := by
  have hwalk := byteLength_walk_le [] segments
  have hcarried := byteLength_mapM_carried h
  have hnil : byteLength (joined []) = 0 := rfl
  have hdots : segments.countP isDot = 0 := by omega
  have hpercents : (joined (walk [] segments)).count '%' = 0 := by omega
  have hdot : ∀ segment ∈ segments, isDot segment = false := by
    intro segment hsegment
    exact Bool.eq_false_iff.mpr (List.countP_eq_zero.mp hdots segment hsegment)
  refine ⟨hdot, fun segment hsegment hmem ↦ ?_⟩
  rw [walk_of_not_dot hdot, List.nil_append] at hpercents
  apply List.count_eq_zero.mp hpercents
  exact List.mem_flatMap.mpr ⟨segment, hsegment, List.mem_cons_of_mem '/' hmem⟩

/-! ### What a reference resolves to -/

/-- The server splits the path into the encoded segments. -/
theorem splitOn_pathname (afterSlash : List Char) :
    (targetOf afterSlash).pathname.splitOn '/' =
      [] :: (walk [] (splitPath ((afterSlash.takeWhile (· ≠ '#')).takeWhile (· ≠ '?')))).map
        (percentEncode inPathSet) := by
  apply splitOn_joined
  intro encoded hencoded
  obtain ⟨segment, hsegment, rfl⟩ := List.mem_map.mp hencoded
  apply slash_not_mem_percentEncode
  rcases mem_walk hsegment with rfl | hnil | hsplit
  · exact List.not_mem_nil
  · exact absurd hnil List.not_mem_nil
  · exact PosixPath.slash_not_mem_of_mem_splitOn hsplit

/-- Assumes: one slash at the start, no control character, and no space at the end. Nothing is
stripped. -/
theorem resolve_eq {start : List Char} {last : Char}
    (hcontrol : ∀ c ∈ start ++ [last], 0x20 ≤ c.toNat) (hlast : 0x20 < last.toNat)
    (hfirst : (start ++ [last]).head?.any isSlash = false) :
    resolve ('/' :: (start ++ [last])) = some (targetOf (start ++ [last])) := by
  have hstrip : stripChars isOuterSpace ('/' :: (start ++ [last])) = '/' :: (start ++ [last]) := by
    have hend : ¬ isOuterSpace last = true := by
      rw [isOuterSpace, decide_eq_true_iff]
      exact Nat.not_le.mpr hlast
    rw [stripChars, List.dropWhile_cons_of_neg (by decide), ← List.cons_append]
    exact List.rdropWhile_concat_neg isOuterSpace ('/' :: start) last hend
  have hfilter : ('/' :: (start ++ [last])).filter (fun c ↦ !isTabOrLineEnd c) =
      '/' :: (start ++ [last]) := by
    rw [List.filter_eq_self]
    intro c hc
    have hplain : 0x20 ≤ c.toNat := by
      rcases List.mem_cons.mp hc with rfl | hc
      · decide
      · exact hcontrol c hc
    simp only [isTabOrLineEnd, Bool.not_eq_true', Bool.or_eq_false_iff, decide_eq_false_iff_not]
    omega
  rw [resolve, hstrip, hfilter]
  show (if isSlash '/' && !(start ++ [last]).head?.any isSlash then _ else none) = _
  rw [hfirst]
  rfl

theorem byteLength_map_toLower (chars : List Char) :
    byteLength (chars.map Char.toLower) = byteLength chars := by
  induction chars with
  | nil => rfl
  | cons c rest ih =>
    rw [List.map_cons, byteLength_cons, byteLength_cons, EcmaText.utf8Size_toLower, ih]

/-- Assumes: no `%` in the segment. Then only `.` and `..` are dot segments. -/
theorem isDot_iff {segment : List Char} (h : '%' ∉ segment) :
    isDot segment = true ↔ segment = ['.'] ∨ segment = ['.', '.'] := by
  have hplain : ∀ dots : List Char, '%' ∈ dots → ¬ dots = segment.map Char.toLower := by
    rintro dots hdots rfl
    obtain ⟨c, hc, hlower⟩ := List.mem_map.mp hdots
    rw [EcmaText.eq_of_toLower_eq (by decide) hlower] at hc
    exact h hc
  have hdots : ∀ dots : List Char, (∀ c ∈ dots, c = '.') →
      (dots = segment.map Char.toLower ↔ segment = dots) := by
    intro dots hall
    constructor
    · rintro rfl
      have hsame : ∀ c ∈ segment, c.toLower = c := by
        intro c hc
        have hdot := hall c.toLower (List.mem_map_of_mem hc)
        rw [hdot]
        exact (EcmaText.eq_of_toLower_eq (by decide) hdot).symm
      rw [List.map_congr_left hsame, List.map_id']
    · rintro rfl
      have hsame : ∀ c ∈ segment, c.toLower = c := by
        intro c hc
        rw [hall c hc]
        rfl
      rw [List.map_congr_left hsame, List.map_id']
  have hsingle := hdots ['.'] (EcmaText.forall_mem_of_all (by decide))
  have hdouble := hdots ['.', '.'] (EcmaText.forall_mem_of_all (by decide))
  have hescaped : isSingleDot segment = decide (['.'] = segment.map Char.toLower) := by
    have hlast := hplain ['%', '2', 'e'] (by decide)
    simp [isSingleDot, hlast]
  have hboth : isDoubleDot segment = decide (['.', '.'] = segment.map Char.toLower) := by
    have hfirst := hplain ['.', '%', '2', 'e'] (by decide)
    have hsecond := hplain ['%', '2', 'e', '.'] (by decide)
    have hthird := hplain ['%', '2', 'e', '%', '2', 'e'] (by decide)
    simp [isDoubleDot, hfirst, hsecond, hthird]
  rw [isDot, hescaped, hboth, Bool.or_eq_true, decide_eq_true_iff, decide_eq_true_iff, hsingle,
    hdouble]

end FileForge.Foundation.WebUrl
