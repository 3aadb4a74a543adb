import FileForge.Foundation.EcmaNumber

/-!
# `querystring.parse`

The query of a URL as pairs of names and values: pieces between `&`, each split at its first `=`,
`+` for a space, and percent-decoding of a piece that has an escape. What `decodeURIComponent` does
not decode is decoded with replacement characters. A name that occurs once has a string for its
value, one that occurs several times an array (`Query.text`).

`parse_pair` reads back two fields whose texts have none of these characters.
-/

set_option autoImplicit false
set_option relaxedAutoImplicit false

namespace FileForge.Foundation.QueryString

open EcmaNumber

/-! ### Percent-decoding -/

/-- There is a `%` with two hexadecimal digits. -/
def hasEscape : List Char → Bool
  | '%' :: first :: second :: rest =>
    ((digitOf 16 first).isSome && (digitOf 16 second).isSome) || hasEscape (first :: second :: rest)
  | _ :: rest => hasEscape rest
  | [] => false

/-- The bytes of a text, its escapes decoded, `none` at a `%` that starts no escape. -/
def escapedBytes : List Char → Option (List UInt8)
  | [] => some []
  | '%' :: first :: second :: rest => do
    let high ← digitOf 16 first
    let low ← digitOf 16 second
    let bytes ← escapedBytes rest
    return UInt8.ofNat (16 * high + low) :: bytes
  | '%' :: _ => none
  | c :: rest => do
    let bytes ← escapedBytes rest
    return String.utf8EncodeChar c ++ bytes

/-- `decodeURIComponent`, `none` when it throws. -/
def decodeURIComponent (chars : List Char) : Option (List Char) := do
  let bytes ← escapedBytes chars
  let text ← String.fromUTF8? ⟨bytes.toArray⟩
  return text.toList

/-- `unescapeBuffer`: a `%` that starts no escape stands for itself, and a character for its last
eight bits. -/
def unescapeBuffer : List Char → List UInt8
  | [] => []
  | '%' :: first :: second :: rest =>
    match digitOf 16 first, digitOf 16 second with
    | some high, some low => UInt8.ofNat (16 * high + low) :: unescapeBuffer rest
    | _, _ => UInt8.ofNat '%'.toNat :: unescapeBuffer (first :: second :: rest)
  | c :: rest => UInt8.ofNat c.toNat :: unescapeBuffer rest

/-- The bytes that may follow the first byte of a character, and how many follow altogether. -/
def continuation (lead : UInt8) : UInt8 × UInt8 × ℕ :=
  if 0xC2 ≤ lead ∧ lead ≤ 0xDF then (0x80, 0xBF, 1)
  else if lead = 0xE0 then (0xA0, 0xBF, 2)
  else if lead = 0xED then (0x80, 0x9F, 2)
  else if 0xE1 ≤ lead ∧ lead ≤ 0xEF then (0x80, 0xBF, 2)
  else if lead = 0xF0 then (0x90, 0xBF, 3)
  else if lead = 0xF4 then (0x80, 0x8F, 3)
  else if 0xF1 ≤ lead ∧ lead ≤ 0xF3 then (0x80, 0xBF, 3)
  else (0, 0, 0)

/-- The number of bytes that one replacement character stands for: the longest start of a
character. -/
def brokenLength : List UInt8 → ℕ
  | lead :: second :: rest =>
    let (low, high, count) := continuation lead
    if count ≠ 0 ∧ low ≤ second ∧ second ≤ high then
      2 + ((rest.take (count - 1)).takeWhile fun byte ↦ 0x80 ≤ byte ∧ byte ≤ 0xBF).length
    else 1
  | _ => 1

/-- `buffer.toString()`, the bytes that are left to decode at most so many. -/
def decodeLossy : ℕ → List UInt8 → List Char
  | 0, _ | _, [] => []
  | fuel + 1, bytes =>
    match (⟨bytes.toArray⟩ : ByteArray).utf8DecodeChar? 0 with
    | some c => c :: decodeLossy fuel (bytes.drop c.utf8Size)
    | none => Char.ofNat 0xFFFD :: decodeLossy fuel (bytes.drop (brokenLength bytes))

/-- `querystring.unescape`. -/
def unescape (chars : List Char) : List Char :=
  match decodeURIComponent chars with
  | some decoded => decoded
  | none => decodeLossy (unescapeBuffer chars).length (unescapeBuffer chars)

/-! ### Fields -/

/-- A name or a value. -/
def decodePiece (chars : List Char) : String :=
  let spaced := chars.map fun c ↦ if c = '+' then ' ' else c
  String.ofList (if hasEscape chars then unescape spaced else spaced)

/-- The fields of a query in their order. -/
abbrev Query := List (String × String)

/-- How many pieces are read. -/
def maxKeys : ℕ := 1000

def parseField (piece : List Char) : String × String :=
  (decodePiece (piece.takeWhile (· ≠ '=')), decodePiece ((piece.dropWhile (· ≠ '=')).drop 1))

/-- `querystring.parse`. -/
def parse (text : String) : Query :=
  (((text.toList.splitOn '&').take maxKeys).filter (· ≠ [])).map parseField

/-- The value of a name that has exactly one. -/
def Query.text (query : Query) (name : String) : Option String :=
  match (query.filter fun field ↦ field.1 = name).map Prod.snd with
  | [value] => some value
  | _ => none

/-! ### Plain texts -/

/-- No character of the text means anything in a query. -/
def Plain (chars : List Char) : Prop := ∀ c ∈ chars, c ∉ ['&', '=', '%', '+']

/-- Assumes: a property of all characters of the text that none of the four has. -/
theorem plain_of_forall {property : Char → Prop} {chars : List Char}
    (hchars : ∀ c ∈ chars, property c) (hspecial : ∀ c ∈ ['&', '=', '%', '+'], ¬ property c) :
    Plain chars := fun c hc hmem ↦ hspecial c hmem (hchars c hc)

theorem Plain.append {first second : List Char} (hfirst : Plain first) (hsecond : Plain second) :
    Plain (first ++ second) := by
  intro c hc
  rcases List.mem_append.mp hc with h | h
  · exact hfirst c h
  · exact hsecond c h

theorem hasEscape_of_plain {chars : List Char} (h : Plain chars) : hasEscape chars = false := by
  induction chars with
  | nil => rfl
  | cons c rest ih =>
    have hpercent : c ≠ '%' := by
      rintro rfl
      exact h '%' List.mem_cons_self (by decide)
    have hrest := ih fun other hother ↦ h other (List.mem_cons_of_mem c hother)
    rw [hasEscape]
    · exact hrest
    · rintro first second tail rfl
      exact absurd rfl hpercent

theorem decodePiece_of_plain {chars : List Char} (h : Plain chars) :
    decodePiece chars = String.ofList chars := by
  have hspaced : (chars.map fun c ↦ if c = '+' then ' ' else c) = chars := by
    conv_rhs => rw [← List.map_id chars]
    refine List.map_congr_left fun c hc ↦ ?_
    have hplus : c ≠ '+' := by
      rintro rfl
      exact h '+' hc (by decide)
    exact if_neg hplus
  simp [decodePiece, hasEscape_of_plain h, hspaced]

/-- A field with a plain name and a plain value. -/
theorem parseField_of_plain {name value : List Char} (hname : Plain name) (hvalue : Plain value) :
    parseField (name ++ '=' :: value) = (String.ofList name, String.ofList value) := by
  have hbefore : ∀ c ∈ name, decide (c ≠ '=') = true := by
    intro c hc
    rw [decide_eq_true_iff]
    rintro rfl
    exact hname '=' hc (by decide)
  rw [parseField, List.takeWhile_append_of_pos hbefore, List.dropWhile_append_of_pos hbefore]
  simp [decodePiece_of_plain hname, decodePiece_of_plain hvalue]

/-- Two plain fields are read back. -/
theorem parse_pair {name other value third : List Char} (hname : Plain name) (hvalue : Plain value)
    (hother : Plain other) (hthird : Plain third) :
    parse (String.ofList (name ++ '=' :: value ++ '&' :: (other ++ '=' :: third))) =
      [(String.ofList name, String.ofList value), (String.ofList other, String.ofList third)] := by
  have hamp : ∀ {name value : List Char}, Plain name → Plain value →
      '&' ∉ name ++ '=' :: value := by
    intro name value hname hvalue hmem
    rcases List.mem_append.mp hmem with hleft | hright
    · exact hname '&' hleft (by decide)
    rcases List.mem_cons.mp hright with hequals | hright
    · cases hequals
    · exact hvalue '&' hright (by decide)
  rw [parse, String.toList_ofList, List.splitOn_append_cons_self_of_not_mem (hamp hname hvalue),
    List.splitOn_eq_singleton (hamp hother hthird)]
  simp [maxKeys, parseField_of_plain hname hvalue, parseField_of_plain hother hthird]

end FileForge.Foundation.QueryString
