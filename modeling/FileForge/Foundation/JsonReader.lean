import FileForge.Foundation.EcmaObject
import FileForge.Foundation.JsonText

/-!
# Reading a JSON text

`JSON.parse`: white space around the tokens, strings with their escapes, numbers of the JSON grammar,
and objects in which the last value of a name stays. A pair of surrogates that is escaped in two
halves is one character; a half without the other stands as the replacement character that it is
written as. A number is rounded to a double, and one that is too large for a double, which would be
infinite, stands for its exact value.

A reader takes a value off the start of a text (`Reader`). Values are read to a depth, and the depth
that `parse` allows is never reached (`readValue_of_le`). `parse_stringify` is the round trip: what
`stringify` writes of a value with distinct names and numbers that are doubles is read back as that
value.
-/

set_option autoImplicit false
set_option relaxedAutoImplicit false

namespace FileForge.Foundation.JsonReader

open JsonValue EcmaNumber EcmaObject JsonText

/-! ### Readers -/

/-- A value off the start of a text, and the rest of the text. -/
abbrev Reader (α : Type) := List Char → Option (α × List Char)

/-- The white space of JSON. -/
def isBlank (c : Char) : Bool := [0x20, 0x9, 0xA, 0xD].contains c.toNat

def skipBlanks (chars : List Char) : List Char := chars.dropWhile isBlank

/-! ### Strings -/

/-- What a string is made of: characters and escaped halves of surrogate pairs. -/
inductive Piece
  | char (c : Char)
  | half (unit : ℕ)

def pieceOf (unit : ℕ) : Piece :=
  if 0xD800 ≤ unit ∧ unit < 0xE000 then .half unit else .char (Char.ofNat unit)

/-- Two halves that belong together are one character. -/
def joined : List Piece → List Char
  | [] => []
  | .half high :: .half low :: rest =>
    if high < 0xDC00 ∧ 0xDC00 ≤ low then
      Char.ofNat (0x10000 + (high - 0xD800) * 0x400 + (low - 0xDC00)) :: joined rest
    else '\uFFFD' :: joined (.half low :: rest)
  | .half _ :: rest => '\uFFFD' :: joined rest
  | .char c :: rest => c :: joined rest

/-- The character that an escape of one letter stands for. -/
def unescape (c : Char) : Option Char :=
  if c = '"' ∨ c = '\\' ∨ c = '/' then some c
  else if c = 'b' then some (Char.ofNat 0x8)
  else if c = 'f' then some (Char.ofNat 0xC)
  else if c = 'n' then some (Char.ofNat 0xA)
  else if c = 'r' then some (Char.ofNat 0xD)
  else if c = 't' then some (Char.ofNat 0x9)
  else none

/-- An item in front of what has been read. -/
def before {α : Type} (first : α) (read : Option (List α × List Char)) :
    Option (List α × List Char) :=
  read.map fun (others, rest) ↦ (first :: others, rest)

/-- The pieces up to the closing quote. -/
def readPieces : Reader (List Piece)
  | [] => none
  | c :: rest =>
    if c = '"' then some ([], rest)
    else if c.toNat < 0x20 then none
    else if c = '\\' then
      match rest with
      | 'u' :: first :: second :: third :: fourth :: rest =>
        (readRadix 16 [first, second, third, fourth]).bind fun unit ↦
          before (pieceOf unit) (readPieces rest)
      | short :: rest => (unescape short).bind fun c ↦ before (.char c) (readPieces rest)
      | [] => none
    else before (.char c) (readPieces rest)

/-- A string behind its opening quote. -/
def readString : Reader String := fun chars ↦
  (readPieces chars).map fun (pieces, rest) ↦ (String.ofList (joined pieces), rest)

/-! ### Numbers -/

def isNumberPart (c : Char) : Bool := c.isDigit || ['-', '+', '.', 'e', 'E'].contains c

/-- At least one digit, and no zero in front of others. -/
def IsWhole (digits : List Char) : Prop :=
  digits ≠ [] ∧ (digits.head? = some '0' → digits = ['0'])

instance : DecidablePred IsWhole := fun digits ↦
  inferInstanceAs (Decidable (digits ≠ [] ∧ (digits.head? = some '0' → digits = ['0'])))

/-- The grammar of a number, its sign left out. -/
def isLiteral (chars : List Char) : Bool :=
  decide (IsWhole (chars.takeWhile Char.isDigit)) &&
    match chars.dropWhile Char.isDigit with
    | '.' :: rest =>
      !(rest.takeWhile Char.isDigit).isEmpty && (readExponent (rest.dropWhile Char.isDigit)).isSome
    | rest => (readExponent rest).isSome

def unsigned : List Char → List Char
  | '-' :: rest => rest
  | chars => chars

/-- The exact value of a literal. -/
def exactValue (literal : List Char) : Option ℚ :=
  match literal with
  | '-' :: rest => (readDecimal rest).map fun value ↦ -value
  | chars => readDecimal chars

def numberOf (literal : List Char) : Option Json :=
  if isLiteral (unsigned literal) then
    match readSigned literal with
    | .finite double => some (.number double.value)
    | _ => (exactValue literal).map .number
  else none

/-- A number is as long as its characters go. -/
def readNumber : Reader Json := fun chars ↦
  (numberOf (chars.takeWhile isNumberPart)).map fun value ↦ (value, chars.dropWhile isNumberPart)

/-! ### Values -/

def readWord (word : String) (value : Json) : Reader Json := fun chars ↦
  if word.toList.isPrefixOf chars then some (value, chars.drop word.toList.length) else none

/-- Items with commas between them, up to the closing bracket. There are no more of them than the
text is long. -/
def readItems {α : Type} (last : Char) (item : Reader α) : ℕ → Reader (List α)
  | 0, _ => none
  | limit + 1, chars =>
    match item (skipBlanks chars) with
    | none => none
    | some (first, rest) =>
      match skipBlanks rest with
      | [] => none
      | c :: rest =>
        if c = ',' then before first (readItems last item limit rest)
        else if c = last then some ([first], rest)
        else none

/-- What stands between brackets, behind the opening one. -/
def readList {α : Type} (last : Char) (item : Reader α) : Reader (List α) := fun chars ↦
  match skipBlanks chars with
  | [] => none
  | c :: rest =>
    if c = last then some ([], rest) else readItems last item (rest.length + 1) (c :: rest)

/-- A colon and a value. -/
def readAssigned (value : Reader Json) : Reader Json := fun chars ↦
  match skipBlanks chars with
  | ':' :: rest => value (skipBlanks rest)
  | _ => none

/-- A name and its value. -/
def readField (value : Reader Json) : Reader (String × Json)
  | '"' :: rest =>
    (readString rest).bind fun (name, rest) ↦
      (readAssigned value rest).map fun (value, rest) ↦ ((name, value), rest)
  | _ => none

/-- The fields of an object: the last value of a name, at the place of the first. -/
def fieldsOf (entries : List (String × Json)) : List (String × Json) :=
  entries.foldl (fun fields entry ↦ put entry.1 entry.2 fields) []

/-- A value that is nested no deeper than the first argument. -/
def readValue : ℕ → Reader Json
  | 0, _ => none
  | _ + 1, [] => none
  | depth + 1, c :: rest =>
    if c = '-' ∨ c.isDigit then readNumber (c :: rest)
    else if c = '"' then (readString rest).map fun (text, rest) ↦ (.string text, rest)
    else if c = '[' then
      (readList ']' (readValue depth) rest).map fun (elements, rest) ↦ (.array elements, rest)
    else if c = '\x7b' then
      (readList '\x7d' (readField (readValue depth)) rest).map fun (entries, rest) ↦
        (.object (fieldsOf entries), rest)
    else if c = 't' then readWord "true" (.bool true) (c :: rest)
    else if c = 'f' then readWord "false" (.bool false) (c :: rest)
    else readWord "null" .null (c :: rest)

/-- `JSON.parse`: `none` stands for the exception. -/
def parse (text : String) : Option Json :=
  match readValue text.toList.length (skipBlanks text.toList) with
  | some (value, rest) => if skipBlanks rest = [] then some value else none
  | none => none

/-! ### The depth is never reached -/

/-- What is read is not empty. -/
def Shortens {α : Type} (read : Reader α) : Prop :=
  ∀ chars value rest, read chars = some (value, rest) → rest.length < chars.length

theorem length_skipBlanks_le (chars : List Char) : (skipBlanks chars).length ≤ chars.length :=
  (List.dropWhile_suffix _).length_le

theorem length_of_before {α : Type} {first : α} {read : Option (List α × List Char)} {items : List α}
    {rest : List Char} (h : before first read = some (items, rest)) :
    ∃ others, read = some (others, rest) := by
  obtain ⟨⟨others, after⟩, hread, hpair⟩ := Option.map_eq_some_iff.mp h
  cases hpair
  exact ⟨others, hread⟩

theorem readPieces_length : Shortens readPieces := by
  intro chars
  fun_induction readPieces chars with
  | case1 => nofun
  | case2 rest =>
    rintro value after ⟨⟩
    exact Nat.lt_succ_self _
  | case3 => nofun
  | case4 first second third fourth rest hquote hcontrol ih =>
    intro value after hread
    obtain ⟨unit, -, hbefore⟩ := Option.bind_eq_some_iff.mp hread
    obtain ⟨others, hothers⟩ := length_of_before hbefore
    have hrest := ih others after hothers
    simp only [List.length_cons]
    omega
  | case5 short rest hquote hcontrol hunit ih =>
    intro value after hread
    obtain ⟨c, -, hbefore⟩ := Option.bind_eq_some_iff.mp hread
    obtain ⟨others, hothers⟩ := length_of_before hbefore
    have hrest := ih others after hothers
    simp only [List.length_cons]
    omega
  | case6 => nofun
  | case7 c rest hquote hcontrol hescape ih =>
    intro value after hread
    obtain ⟨others, hothers⟩ := length_of_before hread
    have hrest := ih others after hothers
    simp only [List.length_cons]
    omega

theorem readString_length : Shortens readString := by
  intro chars text rest hread
  obtain ⟨⟨pieces, after⟩, hpieces, hpair⟩ := Option.map_eq_some_iff.mp hread
  cases hpair
  exact readPieces_length chars pieces rest hpieces

section Items

variable {α : Type} {last : Char} {item : Reader α}

theorem readItems_length (hitem : Shortens item) :
    ∀ limit, Shortens (readItems last item limit) := by
  intro limit
  induction limit with
  | zero => nofun
  | succ limit ih =>
    intro chars items after hread
    rw [readItems] at hread
    split at hread
    · cases hread
    · rename_i first rest hfirst
      have hshort := hitem _ _ _ hfirst
      have hblanks := length_skipBlanks_le chars
      have hmore := length_skipBlanks_le rest
      split at hread
      · cases hread
      · rename_i c next hnext
        rw [hnext, List.length_cons] at hmore
        split_ifs at hread
        · obtain ⟨others, hothers⟩ := length_of_before hread
          have hrest := ih next others after hothers
          omega
        · cases hread
          omega

theorem readList_length (hitem : Shortens item) : Shortens (readList last item) := by
  intro chars items after hread
  rw [readList] at hread
  have hblanks := length_skipBlanks_le chars
  split at hread
  · cases hread
  · rename_i c rest hrest
    rw [hrest] at hblanks
    split_ifs at hread
    · cases hread
      exact hblanks
    · exact Nat.lt_of_lt_of_le (readItems_length hitem _ _ _ _ hread) hblanks

theorem Shortens.nil (hitem : Shortens item) : item [] = none := by
  cases hread : item [] with
  | none => rfl
  | some read => exact absurd (hitem [] read.1 read.2 hread) (Nat.not_lt_zero _)

theorem readItems_nil (hitem : item [] = none) (limit : ℕ) :
    readItems last item limit [] = none := by
  cases limit with
  | zero => rfl
  | succ limit => rw [readItems, skipBlanks, List.dropWhile_nil, hitem]

/-- Assumes: readers that agree on what is no longer than the text, and limits that are not below
its length. Neither makes a difference. -/
theorem readItems_congr {other : Reader α} (hitem : Shortens item) {limit bound : ℕ}
    {chars : List Char} (hlimit : chars.length ≤ limit) (hbound : chars.length ≤ bound)
    (hagree : ∀ text : List Char, text.length ≤ chars.length → item text = other text) :
    readItems last item limit chars = readItems last other bound chars := by
  induction limit generalizing bound chars with
  | zero =>
    obtain rfl := List.length_eq_zero_iff.mp (Nat.le_zero.mp hlimit)
    have hother : other [] = none := (hagree [] le_rfl).symm.trans hitem.nil
    rw [readItems_nil hitem.nil, readItems_nil hother]
  | succ limit ih =>
    cases bound with
    | zero =>
      obtain rfl := List.length_eq_zero_iff.mp (Nat.le_zero.mp hbound)
      have hother : other [] = none := (hagree [] le_rfl).symm.trans hitem.nil
      rw [readItems_nil hitem.nil, readItems_nil hother]
    | succ bound =>
      have hblanks := length_skipBlanks_le chars
      rw [readItems, readItems, ← hagree _ hblanks]
      cases hfirst : item (skipBlanks chars) with
      | none => rfl
      | some read =>
        obtain ⟨first, rest⟩ := read
        have hshort := hitem _ _ _ hfirst
        have hmore := length_skipBlanks_le rest
        cases hnext : skipBlanks rest with
        | nil => simp only [hnext]
        | cons c next =>
          rw [hnext, List.length_cons] at hmore
          have hnexts := @ih bound next (by omega) (by omega) fun text htext ↦
            hagree text (by omega)
          simp only [hnext, hnexts]

theorem readList_congr {other : Reader α} (hitem : Shortens item) {chars : List Char}
    (hagree : ∀ text : List Char, text.length ≤ chars.length → item text = other text) :
    readList last item chars = readList last other chars := by
  have hblanks := length_skipBlanks_le chars
  rw [readList, readList]
  cases hnext : skipBlanks chars with
  | nil => rfl
  | cons c rest =>
    rw [hnext] at hblanks
    have hitems : readItems last item (rest.length + 1) (c :: rest) =
        readItems last other (rest.length + 1) (c :: rest) :=
      readItems_congr hitem le_rfl le_rfl fun text htext ↦ hagree text (htext.trans hblanks)
    simp only [hitems]

end Items

theorem readAssigned_length {value : Reader Json} (hvalue : Shortens value) :
    Shortens (readAssigned value) := by
  intro chars read after hread
  have hblanks := length_skipBlanks_le chars
  unfold readAssigned at hread
  split at hread
  · rename_i rest hcolon
    have hshort := hvalue _ _ _ hread
    have hmore := length_skipBlanks_le rest
    rw [hcolon, List.length_cons] at hblanks
    omega
  · cases hread

theorem readField_length {value : Reader Json} (hvalue : Shortens value) :
    Shortens (readField value) := by
  intro chars entry after hread
  unfold readField at hread
  split at hread
  · rename_i rest
    obtain ⟨⟨name, next⟩, hname, hassigned⟩ := Option.bind_eq_some_iff.mp hread
    obtain ⟨⟨read, ending⟩, hvalued, hpair⟩ := Option.map_eq_some_iff.mp hassigned
    cases hpair
    have hshort := readString_length _ _ _ hname
    have hmore := readAssigned_length hvalue _ _ _ hvalued
    exact Nat.lt_succ_of_lt (hmore.trans hshort)
  · cases hread

theorem readAssigned_congr {value other : Reader Json} {chars : List Char}
    (hagree : ∀ text : List Char, text.length ≤ chars.length → value text = other text) :
    readAssigned value chars = readAssigned other chars := by
  have hblanks := length_skipBlanks_le chars
  unfold readAssigned
  split
  · rename_i rest hcolon
    have hmore := length_skipBlanks_le rest
    rw [hcolon, List.length_cons] at hblanks
    exact hagree _ (by omega)
  · rfl

theorem readField_congr {value other : Reader Json} {chars : List Char}
    (hagree : ∀ text : List Char, text.length ≤ chars.length → value text = other text) :
    readField value chars = readField other chars := by
  unfold readField
  split
  · rename_i rest
    cases hname : readString rest with
    | none => rfl
    | some read =>
      have hshort := readString_length _ _ _ hname
      have hassigned : readAssigned value read.2 = readAssigned other read.2 :=
        readAssigned_congr fun text htext ↦
          hagree text (htext.trans (hshort.le.trans (Nat.le_succ _)))
      show (readAssigned value read.2).map _ = (readAssigned other read.2).map _
      rw [hassigned]
  · rfl

theorem readNumber_length : Shortens readNumber := by
  intro chars value rest hread
  obtain ⟨read, hnumber, hpair⟩ := Option.map_eq_some_iff.mp hread
  cases hpair
  have hne : chars.takeWhile isNumberPart ≠ [] := by
    intro hnil
    rw [hnil] at hnumber
    cases hnumber
  have hlength := congrArg List.length
    (List.takeWhile_append_dropWhile (p := isNumberPart) (l := chars))
  rw [List.length_append] at hlength
  have hpos := List.length_pos_iff.mpr hne
  omega

theorem readWord_length {word : String} (hne : word ≠ "") (value : Json) :
    Shortens (readWord word value) := by
  intro chars read rest hread
  unfold readWord at hread
  split_ifs at hread with hstart
  cases hread
  have hlength := (List.isPrefixOf_iff_prefix.mp hstart).length_le
  have hpos : 0 < word.toList.length := by
    rw [List.length_pos_iff]
    exact fun hnil ↦ hne (String.toList_inj.mp hnil)
  rw [List.length_drop]
  omega

theorem readValue_length : ∀ depth, Shortens (readValue depth) := by
  intro depth
  induction depth with
  | zero => nofun
  | succ depth ih =>
    intro chars value rest hread
    cases chars with
    | nil => cases hread
    | cons c chars =>
      rw [readValue] at hread
      split_ifs at hread
      · exact readNumber_length _ _ _ hread
      · obtain ⟨⟨text, after⟩, htext, hpair⟩ := Option.map_eq_some_iff.mp hread
        cases hpair
        exact Nat.lt_succ_of_lt (readString_length _ _ _ htext)
      · obtain ⟨⟨elements, after⟩, helements, hpair⟩ := Option.map_eq_some_iff.mp hread
        cases hpair
        exact Nat.lt_succ_of_lt (readList_length ih _ _ _ helements)
      · obtain ⟨⟨entries, after⟩, hentries, hpair⟩ := Option.map_eq_some_iff.mp hread
        cases hpair
        exact Nat.lt_succ_of_lt (readList_length (readField_length ih) _ _ _ hentries)
      · exact readWord_length (by decide) _ _ _ _ hread
      · exact readWord_length (by decide) _ _ _ _ hread
      · exact readWord_length (by decide) _ _ _ _ hread

theorem readValue_succ {depth : ℕ} {chars : List Char} (h : chars.length ≤ depth) :
    readValue (depth + 1) chars = readValue depth chars := by
  induction depth generalizing chars with
  | zero =>
    obtain rfl := List.length_eq_zero_iff.mp (Nat.le_zero.mp h)
    rfl
  | succ depth ih =>
    cases chars with
    | nil => rfl
    | cons c rest =>
      have hrest : rest.length ≤ depth := Nat.le_of_succ_le_succ h
      have helements : readList ']' (readValue (depth + 1)) rest =
          readList ']' (readValue depth) rest :=
        readList_congr (readValue_length _) fun text htext ↦ ih (htext.trans hrest)
      have hentries : readList '\x7d' (readField (readValue (depth + 1))) rest =
          readList '\x7d' (readField (readValue depth)) rest :=
        readList_congr (readField_length (readValue_length _)) fun text htext ↦
          readField_congr fun part hpart ↦ ih ((hpart.trans htext).trans hrest)
      rw [readValue, readValue, helements, hentries]

/-- What is nested deeper than the text is long cannot be written in it. -/
theorem readValue_of_le {depth : ℕ} {chars : List Char} (h : chars.length ≤ depth) (more : ℕ) :
    readValue (depth + more) chars = readValue depth chars := by
  induction more with
  | zero => rfl
  | succ more ih => rw [← Nat.add_assoc, readValue_succ (h.trans (Nat.le_add_right _ _)), ih]

/-! ### Written strings -/

theorem joined_chars (chars : List Char) : joined (chars.map Piece.char) = chars := by
  induction chars with
  | nil => rfl
  | cons c rest ih => rw [List.map_cons, joined, ih]

theorem readRadix_digitChars {first second : ℕ} (hfirst : first < 2) (hsecond : second < 16) :
    readRadix 16 ['0', '0', Nat.digitChar first, Nat.digitChar second] =
      some (16 * first + second) := by
  have hall : ∀ first < 2, ∀ second < 16,
      readRadix 16 ['0', '0', Nat.digitChar first, Nat.digitChar second] =
        some (16 * first + second) := by decide
  exact hall first hfirst second hsecond

theorem readPieces_quote (rest : List Char) : readPieces ('"' :: rest) = some ([], rest) := by
  rw [readPieces.eq_def]
  rfl

theorem readPieces_plain {c : Char} (hquote : c ≠ '"') (hcontrol : ¬ c.toNat < 0x20)
    (hescape : c ≠ '\\') (rest : List Char) :
    readPieces (c :: rest) = before (.char c) (readPieces rest) := by
  rw [readPieces.eq_def]
  dsimp only
  rw [if_neg hquote, if_neg hcontrol, if_neg hescape]

/-- A character inside the quotes is read back as itself. -/
theorem readPieces_escaped (c : Char) (rest : List Char) :
    readPieces (escaped c ++ rest) = before (.char c) (readPieces rest) := by
  unfold escaped
  split_ifs with hquote hbackslash hbackspace htab hline hfeed hreturn hcontrol
  · rw [hquote]
    rfl
  · rw [hbackslash]
    rfl
  · rw [← Char.ofNat_toNat c, hbackspace]
    rfl
  · rw [← Char.ofNat_toNat c, htab]
    rfl
  · rw [← Char.ofNat_toNat c, hline]
    rfl
  · rw [← Char.ofNat_toNat c, hfeed]
    rfl
  · rw [← Char.ofNat_toNat c, hreturn]
    rfl
  · have hfirst : c.toNat / 16 < 2 := Nat.div_lt_of_lt_mul hcontrol
    have hunit := readRadix_digitChars hfirst (Nat.mod_lt c.toNat (by decide : 0 < 16))
    have hpiece : pieceOf (16 * (c.toNat / 16) + c.toNat % 16) = .char c := by
      rw [Nat.div_add_mod, pieceOf, if_neg (by omega), Char.ofNat_toNat]
    show (readRadix 16 _).bind _ = _
    rw [hunit, Option.bind_some, hpiece]
    rfl
  · exact readPieces_plain hquote hcontrol hbackslash rest

theorem readPieces_flatMap (chars rest : List Char) :
    readPieces (chars.flatMap escaped ++ '"' :: rest) = some (chars.map Piece.char, rest) := by
  induction chars with
  | nil => exact readPieces_quote rest
  | cons c chars ih =>
    rw [List.flatMap_cons, List.append_assoc, readPieces_escaped, ih]
    rfl

theorem readString_quoted (text : String) (rest : List Char) :
    readString (text.toList.flatMap escaped ++ '"' :: rest) = some (text, rest) := by
  rw [readString, readPieces_flatMap, Option.map_some]
  dsimp only
  rw [joined_chars, String.ofList_toList]

/-! ### Written numbers -/

/-- A number does not begin with a zero. -/
theorem head_toDigits {n : ℕ} (h : 0 < n) : (Nat.toDigits 10 n).head? ≠ some '0' := by
  induction n using Nat.strongRecOn with
  | ind n ih =>
    by_cases hsmall : n < 10
    · rw [Nat.toDigits_of_lt_base hsmall]
      have hall : ∀ digit < 10, 0 < digit → some (Nat.digitChar digit) ≠ some '0' := by decide
      exact hall n hsmall h
    · rw [Nat.toDigits_of_base_le (by decide) (Nat.le_of_not_lt hsmall),
        List.head?_append_of_ne_nil _ Nat.toDigits_ne_nil]
      exact ih (n / 10) (by omega) (by omega)

theorem isWhole_zero : IsWhole ['0'] := by decide

theorem isWhole_of_head {digits : List Char} (hne : digits ≠ []) (hhead : digits.head? ≠ some '0') :
    IsWhole digits :=
  ⟨hne, fun hzero ↦ absurd hzero hhead⟩

theorem isLiteral_point {whole fraction exponentPart : List Char} (hdigits : AllDigits whole)
    (hwhole : IsWhole whole) (hfraction : AllDigits fraction) (hne : fraction ≠ [])
    (hstops : StopsDigits exponentPart) (hexponent : (readExponent exponentPart).isSome) :
    isLiteral (whole ++ '.' :: (fraction ++ exponentPart)) = true := by
  have hpoint : StopsDigits ('.' :: (fraction ++ exponentPart)) := by
    intro c rest hchars
    rw [← (List.cons.inj hchars).1]
    rfl
  obtain ⟨htaken, hdropped⟩ := span_digits hdigits hpoint
  obtain ⟨hfractionTaken, hfractionDropped⟩ := span_digits hfraction hstops
  rw [isLiteral, htaken, hdropped, decide_eq_true hwhole]
  show (!(List.takeWhile _ _).isEmpty && (readExponent (List.dropWhile _ _)).isSome) = true
  rw [hfractionTaken, hfractionDropped, hexponent, Bool.and_true, Bool.not_eq_true',
    List.isEmpty_eq_false_iff]
  exact hne

theorem isLiteral_whole {whole exponentPart : List Char} (hdigits : AllDigits whole)
    (hwhole : IsWhole whole) (hstops : StopsDigits exponentPart)
    (hpoint : ∀ rest, exponentPart ≠ '.' :: rest)
    (hexponent : (readExponent exponentPart).isSome) :
    isLiteral (whole ++ exponentPart) = true := by
  obtain ⟨htaken, hdropped⟩ := span_digits hdigits hstops
  rw [isLiteral, htaken, hdropped, decide_eq_true hwhole, Bool.true_and]
  split
  · rename_i rest
    exact absurd rfl (hpoint rest)
  · exact hexponent

section Layout

variable {digits : List Char} (hdigits : AllDigits digits) (hne : digits ≠ [])
  (hhead : digits.head? ≠ some '0')

include hdigits hne hhead

theorem isLiteral_scientific (power : ℤ) : isLiteral (scientific digits power) = true := by
  have hexponent : (readExponent ('e' :: (if power < 0 then '-' else '+') ::
      Nat.toDigits 10 power.natAbs)).isSome := by
    rw [readExponent_written]
    rfl
  match digits, hne with
  | [first], hne =>
    exact isLiteral_whole hdigits (isWhole_of_head hne hhead) (stopsDigits_exponent _) nofun
      hexponent
  | first :: second :: rest, _ =>
    have hfirst : AllDigits [first] := by
      intro c hc
      exact hdigits c (List.mem_cons.mpr (Or.inl (List.mem_singleton.mp hc)))
    have hrest : AllDigits (second :: rest) := fun c hc ↦ hdigits c (List.mem_cons_of_mem first hc)
    exact isLiteral_point hfirst (isWhole_of_head (List.cons_ne_nil _ _) hhead) hrest
      (List.cons_ne_nil _ _) (stopsDigits_exponent _) hexponent

/-- Wherever the point stands, what is written is a number of the grammar. -/
theorem isLiteral_layout (exponent : ℤ) : isLiteral (layout digits exponent) = true := by
  have hlength : 0 < digits.length := List.length_pos_iff.mpr hne
  simp only [layout]
  split_ifs with hinteger hinside hbefore
  · -- zeros after the digits
    have hzeros := hdigits.append (allDigits_zeros exponent.toNat)
    have hstart : IsWhole (digits ++ List.replicate exponent.toNat '0') :=
      isWhole_of_head (by simp [hne]) (by rwa [List.head?_append_of_ne_nil _ hne])
    have hliteral := isLiteral_whole hzeros hstart stopsDigits_nil (fun _ h ↦ by cases h) rfl
    rwa [List.append_nil] at hliteral
  · -- the point among the digits
    obtain ⟨point, hpoint⟩ := Int.eq_ofNat_of_zero_le hinside.1.le
    rw [hpoint, Int.toNat_natCast]
    have hbefore : AllDigits (digits.take point) := fun c hc ↦ hdigits c (List.mem_of_mem_take hc)
    have hafter : AllDigits (digits.drop point) := fun c hc ↦ hdigits c (List.mem_of_mem_drop hc)
    have hstart : IsWhole (digits.take point) := by
      refine isWhole_of_head ?_ ?_
      · rw [Ne, List.take_eq_nil_iff, not_or]
        exact ⟨by omega, hne⟩
      · rwa [List.head?_take, if_neg (by omega)]
    have hrest : digits.drop point ≠ [] := by
      rw [Ne, List.drop_eq_nil_iff]
      omega
    have hliteral := isLiteral_point hbefore hstart hafter hrest stopsDigits_nil rfl
    rwa [List.append_nil] at hliteral
  · -- zeros between the point and the digits
    have hall := (allDigits_zeros (-(digits.length + exponent)).toNat).append hdigits
    have hliteral := isLiteral_point (allDigits_zeros 1) isWhole_zero hall (by simp [hne])
      stopsDigits_nil rfl
    rwa [List.append_nil] at hliteral
  · exact isLiteral_scientific hdigits hne hhead _

end Layout

/-- A number begins with a digit, its sign left out. -/
theorem exists_digit_of_isLiteral {chars : List Char} (h : isLiteral chars = true) :
    ∃ c rest, chars = c :: rest ∧ c.isDigit = true := by
  have hwhole : IsWhole (chars.takeWhile Char.isDigit) :=
    of_decide_eq_true (Bool.and_eq_true_iff.mp h).1
  cases chars with
  | nil => exact absurd rfl hwhole.1
  | cons c rest =>
    refine ⟨c, rest, rfl, ?_⟩
    by_contra hdigit
    rw [List.takeWhile_cons_of_neg hdigit] at hwhole
    exact hwhole.1 rfl

theorem unsigned_of_isLiteral {chars : List Char} (h : isLiteral chars = true) :
    unsigned chars = chars := by
  obtain ⟨c, rest, rfl, hdigit⟩ := exists_digit_of_isLiteral h
  unfold unsigned
  split
  · rename_i hchars
    rw [(List.cons.inj hchars).1] at hdigit
    exact absurd hdigit (by decide)
  · rfl

theorem isNumberPart_of_isDigit {c : Char} (h : c.isDigit = true) : isNumberPart c = true := by
  rw [isNumberPart, h, Bool.true_or]

theorem isDigit_of_readDigits {chars : List Char} (h : (readDigits chars).isSome = true) :
    ∀ c ∈ chars, c.isDigit = true := by
  unfold readDigits at h
  split_ifs at h with hdigits
  · exact List.all_eq_true.mp hdigits.2
  · cases h

theorem isNumberPart_of_readExponent {chars : List Char} (h : (readExponent chars).isSome = true) :
    ∀ c ∈ chars, isNumberPart c = true := by
  cases chars with
  | nil => exact fun _ hc ↦ absurd hc List.not_mem_nil
  | cons letter rest =>
    simp only [readExponent] at h
    split_ifs at h with hletter
    · have hpart : isNumberPart letter = true := by
        rcases hletter with rfl | rfl <;> decide
      refine List.forall_mem_cons.mpr ⟨hpart, ?_⟩
      have hdigits : ∀ digits : List Char, (readDigits digits).isSome = true →
          ∀ c ∈ digits, isNumberPart c = true :=
        fun digits hread c hc ↦ isNumberPart_of_isDigit (isDigit_of_readDigits hread c hc)
      split at h
      · rw [Option.isSome_map] at h
        exact List.forall_mem_cons.mpr ⟨by decide, hdigits _ h⟩
      · rw [Option.isSome_map] at h
        exact List.forall_mem_cons.mpr ⟨by decide, hdigits _ h⟩
      · rw [Option.isSome_map] at h
        exact hdigits _ h
    · cases h

/-- A number of the grammar is made of the characters that `readNumber` takes. -/
theorem isNumberPart_of_isLiteral {chars : List Char} (h : isLiteral chars = true) :
    ∀ c ∈ chars, isNumberPart c = true := by
  have htaken : ∀ part : List Char, ∀ c ∈ part.takeWhile Char.isDigit, isNumberPart c = true :=
    fun part c hc ↦ isNumberPart_of_isDigit (List.mem_takeWhile_imp hc)
  have hrest := (Bool.and_eq_true_iff.mp h).2
  rw [← List.takeWhile_append_dropWhile (p := Char.isDigit) (l := chars)]
  refine List.forall_mem_append.mpr ⟨htaken chars, ?_⟩
  split at hrest
  · rename_i fraction hpoint
    rw [hpoint, ← List.takeWhile_append_dropWhile (p := Char.isDigit) (l := fraction)]
    exact List.forall_mem_cons.mpr ⟨by decide, List.forall_mem_append.mpr ⟨htaken fraction,
      isNumberPart_of_readExponent (Bool.and_eq_true_iff.mp hrest).2⟩⟩
  · exact isNumberPart_of_readExponent hrest

/-- The number of a double is one of the grammar. -/
theorem isLiteral_toChars (double : Double) :
    isLiteral (unsigned (toChars (.finite double))) = true := by
  have hpositive : ∀ {value : ℚ}, Binary64.Representable value → 0 < value →
      isLiteral (positiveChars value) = true := fun hvalue hpos ↦
    isLiteral_layout (allDigits_toDigits _) Nat.toDigits_ne_nil
      (head_toDigits (significand_shortest_pos hvalue hpos)) _
  simp only [toChars]
  split_ifs with hzero hnegative
  · rfl
  · exact hpositive double.representable.neg (neg_pos.mpr hnegative)
  · have hliteral := hpositive double.representable
      (lt_of_le_of_ne (not_lt.mp hnegative) (Ne.symm hzero))
    rwa [unsigned_of_isLiteral hliteral]

/-- The text ends or goes on with a character that no number has. -/
def StopsNumber (chars : List Char) : Prop := ∀ c rest, chars = c :: rest → isNumberPart c = false

theorem mem_of_unsigned {chars : List Char} {c : Char} (h : c ∈ chars) :
    c = '-' ∨ c ∈ unsigned chars := by
  unfold unsigned
  split
  · exact List.mem_cons.mp h
  · exact Or.inr h

theorem span_number {number rest : List Char} (hnumber : ∀ c ∈ number, isNumberPart c = true)
    (hrest : StopsNumber rest) :
    (number ++ rest).takeWhile isNumberPart = number ∧
      (number ++ rest).dropWhile isNumberPart = rest := by
  rw [List.takeWhile_append_of_pos hnumber, List.dropWhile_append_of_pos hnumber]
  cases rest with
  | nil => simp
  | cons c rest =>
    have hc := hrest c rest rfl
    simp [hc]

theorem readNumber_toChars (double : Double) {rest : List Char} (hrest : StopsNumber rest) :
    readNumber (toChars (.finite double) ++ rest) = some (.number double.value, rest) := by
  have hliteral := isLiteral_toChars double
  have hparts : ∀ c ∈ toChars (.finite double), isNumberPart c = true := by
    intro c hc
    rcases mem_of_unsigned hc with rfl | hunsigned
    · decide
    · exact isNumberPart_of_isLiteral hliteral c hunsigned
  obtain ⟨htaken, hdropped⟩ := span_number hparts hrest
  rw [readNumber, htaken, hdropped, numberOf, if_pos hliteral, readSigned_toChars]
  rfl

/-! ### Written values -/

/-- A value that is read back as it was: every number is a double, and no object repeats a name. -/
inductive Readable : Json → Prop
  | null : Readable .null
  | bool (value : Bool) : Readable (.bool value)
  | number {value : ℚ} (h : Binary64.Representable value) : Readable (.number value)
  | string (value : String) : Readable (.string value)
  | array {elements : List Json} (h : ∀ element ∈ elements, Readable element) :
    Readable (.array elements)
  | object {fields : List (String × Json)} (hnames : (fields.map Prod.fst).Nodup)
    (h : ∀ entry ∈ fields, Readable entry.2) : Readable (.object fields)

/-- How no value begins: white space, and a bracket that closes. -/
def Opens (chars : List Char) : Prop :=
  ∃ c rest, chars = c :: rest ∧ isBlank c = false ∧ c ≠ ']' ∧ c ≠ '\x7d'

theorem Opens.skipBlanks {chars : List Char} (h : Opens chars) (rest : List Char) :
    skipBlanks (chars ++ rest) = chars ++ rest := by
  obtain ⟨c, tail, rfl, hblank, -⟩ := h
  rw [List.cons_append, JsonReader.skipBlanks, List.dropWhile_cons_of_neg (by simp [hblank])]

theorem opens_of_mem {c : Char} (h : c ∈ ['"', '[', '\x7b', 't', 'f', 'n', '-']) (rest : List Char) :
    Opens (c :: rest) := by
  have hall : ∀ d ∈ ['"', '[', '\x7b', 't', 'f', 'n', '-'],
      isBlank d = false ∧ d ≠ ']' ∧ d ≠ '\x7d' := EcmaText.forall_mem_of_all (by decide)
  exact ⟨c, rest, rfl, hall c h⟩

theorem opens_of_isDigit {c : Char} (h : c.isDigit = true) (rest : List Char) :
    Opens (c :: rest) := by
  have hrange : 48 ≤ c.toNat ∧ c.toNat ≤ 57 := Char.isDigit_iff_toNat.mp h
  refine ⟨c, rest, rfl, ?_, ?_, ?_⟩
  · simp only [isBlank, List.contains_eq_mem, List.mem_cons, List.not_mem_nil, or_false,
      decide_eq_false_iff_not]
    omega
  · rintro rfl
    exact absurd h (by decide)
  · rintro rfl
    exact absurd h (by decide)

/-- A written number begins with a sign or a digit. -/
theorem exists_toChars_eq (double : Double) :
    ∃ c rest, toChars (.finite double) = c :: rest ∧ (c = '-' ∨ c.isDigit = true) := by
  obtain ⟨c, rest, hunsigned, hdigit⟩ := exists_digit_of_isLiteral (isLiteral_toChars double)
  unfold unsigned at hunsigned
  split at hunsigned
  · rename_i tail hchars
    exact ⟨'-', tail, hchars, Or.inl rfl⟩
  · exact ⟨c, rest, hunsigned, Or.inr hdigit⟩

theorem numberChars_of_finite {value : ℚ} {double : Double}
    (h : EcmaNumber.ofRat value = .finite double) :
    numberChars value = toChars (.finite double) := by
  unfold numberChars
  rw [h]

theorem chars_of_representable {value : ℚ} (h : Binary64.Representable value) :
    chars (.number value) = toChars (.finite ⟨value, h⟩) :=
  (chars_number value).trans (numberChars_of_finite (ofRat_value ⟨value, h⟩))

theorem Readable.opens {value : Json} (h : Readable value) : Opens (chars value) := by
  cases h with
  | null => exact opens_of_mem (by decide) _
  | bool value => cases value <;> exact opens_of_mem (by decide) _
  | number hvalue =>
    obtain ⟨c, rest, hchars, hc⟩ := exists_toChars_eq ⟨_, hvalue⟩
    rw [chars_of_representable hvalue, hchars]
    rcases hc with rfl | hdigit
    · exact opens_of_mem (by decide) rest
    · exact opens_of_isDigit hdigit rest
  | string value => exact opens_of_mem (by decide) _
  | array _ => exact opens_of_mem (by decide) _
  | object _ _ => exact opens_of_mem (by decide) _

/-- Texts with a comma between two of them. -/
def commas {α : Type} (write : α → List Char) : List α → List Char
  | [] => []
  | [item] => write item
  | item :: next :: rest => write item ++ ',' :: commas write (next :: rest)

theorem elementsChars_eq (elements : List Json) :
    elementsChars elements = commas chars elements := by
  induction elements with
  | nil => rfl
  | cons element rest ih =>
    cases rest with
    | nil => rfl
    | cons next rest => rw [elementsChars_cons_cons, commas, ih]

theorem fieldsChars_eq (fields : List (String × Json)) :
    fieldsChars fields = commas fieldChars fields := by
  induction fields with
  | nil => rfl
  | cons field rest ih =>
    cases rest with
    | nil => rfl
    | cons next rest => rw [fieldsChars_cons_cons, commas, ih]

theorem stopsNumber_cons {c : Char} (h : isNumberPart c = false) (rest : List Char) :
    StopsNumber (c :: rest) := by
  intro d tail hchars
  rw [← (List.cons.inj hchars).1]
  exact h

/-- An item of a list is read back when it is followed by no part of a number. -/
def ReadsBack {α : Type} (write : α → List Char) (read : Reader α) (item : α) : Prop :=
  Opens (write item) ∧ ∀ rest, StopsNumber rest → read (write item ++ rest) = some (item, rest)

theorem skipBlanks_cons {c : Char} (h : isBlank c = false) (rest : List Char) :
    skipBlanks (c :: rest) = c :: rest :=
  List.dropWhile_cons_of_neg (by simp [h])

section Lists

variable {α : Type} {write : α → List Char} {read : Reader α} {last : Char}
  (hlast : last = ']' ∨ last = '\x7d')

theorem length_le_commas {items : List α} (hitems : ∀ item ∈ items, ReadsBack write read item) :
    items.length ≤ (commas write items).length := by
  induction items with
  | nil => exact Nat.zero_le _
  | cons item others ih =>
    obtain ⟨⟨c, tail, hitem, -⟩, -⟩ := hitems item List.mem_cons_self
    have hothers := ih fun other hother ↦ hitems other (List.mem_cons_of_mem item hother)
    cases others with
    | nil => rw [commas, hitem, List.length_singleton, List.length_cons]; omega
    | cons next rest =>
      rw [commas, hitem, List.length_append, List.length_cons, List.length_cons (a := ',')]
      omega

theorem length_write_le_commas (write : α → List Char) {items : List α} {item : α}
    (h : item ∈ items) : (write item).length ≤ (commas write items).length := by
  induction items with
  | nil => exact absurd h List.not_mem_nil
  | cons first others ih =>
    cases others with
    | nil => rw [List.mem_singleton.mp h, commas]
    | cons next rest =>
      rw [commas, List.length_append, List.length_cons]
      rcases List.mem_cons.mp h with rfl | hrest
      · omega
      · have hothers := ih hrest
        omega

include hlast

theorem readItems_commas {items : List α} (hne : items ≠ [])
    (hitems : ∀ item ∈ items, ReadsBack write read item) {limit : ℕ} (hlimit : items.length ≤ limit)
    (rest : List Char) :
    readItems last read limit (commas write items ++ last :: rest) = some (items, rest) := by
  have hcloses : isNumberPart last = false ∧ isBlank last = false ∧ last ≠ ',' := by
    rcases hlast with rfl | rfl <;> decide
  obtain ⟨hpart, hblank, hcomma⟩ := hcloses
  induction items generalizing limit with
  | nil => exact absurd rfl hne
  | cons item others ih =>
    cases limit with
    | zero => exact absurd hlimit (Nat.not_succ_le_zero _)
    | succ limit =>
      obtain ⟨hopens, hread⟩ := hitems item List.mem_cons_self
      cases others with
      | nil =>
        rw [commas, readItems, hopens.skipBlanks, hread _ (stopsNumber_cons hpart _)]
        dsimp only
        rw [skipBlanks_cons hblank]
        dsimp only
        rw [if_neg hcomma, if_pos rfl]
      | cons next more =>
        have hmore := ih (List.cons_ne_nil next more)
          (fun other hother ↦ hitems other (List.mem_cons_of_mem item hother))
          (Nat.le_of_succ_le_succ hlimit)
        rw [commas, List.append_assoc, List.cons_append, readItems, hopens.skipBlanks,
          hread _ (stopsNumber_cons (by decide) _)]
        dsimp only
        rw [skipBlanks_cons (by decide)]
        dsimp only
        rw [if_pos rfl, hmore]
        rfl

/-- A list is read back when its items are. -/
theorem readList_commas {items : List α} (hitems : ∀ item ∈ items, ReadsBack write read item)
    (rest : List Char) :
    readList last read (commas write items ++ last :: rest) = some (items, rest) := by
  have hblank : isBlank last = false := by
    rcases hlast with rfl | rfl <;> decide
  cases items with
  | nil =>
    rw [commas, List.nil_append, readList, skipBlanks_cons hblank]
    dsimp only
    rw [if_pos rfl]
  | cons item others =>
    have hopens : ∃ c tail, commas write (item :: others) ++ last :: rest = c :: tail ∧
        isBlank c = false ∧ c ≠ ']' ∧ c ≠ '\x7d' := by
      obtain ⟨⟨c, tail, hitem, hopen⟩, -⟩ := hitems item List.mem_cons_self
      cases others with
      | nil => exact ⟨c, tail ++ last :: rest, by rw [commas, hitem, List.cons_append], hopen⟩
      | cons next more =>
        exact ⟨c, _, by rw [commas, hitem, List.cons_append, List.cons_append], hopen⟩
    obtain ⟨c, tail, htext, hopen, hbracket, hbrace⟩ := hopens
    have hne : c ≠ last := by
      rcases hlast with rfl | rfl
      · exact hbracket
      · exact hbrace
    have hlength : (item :: others).length ≤ tail.length + 1 := by
      have hcommas := length_le_commas hitems
      have htotal := congrArg List.length htext
      rw [List.length_append, List.length_cons (a := c)] at htotal
      omega
    have hread := readItems_commas hlast (List.cons_ne_nil item others) hitems hlength rest
    rw [htext] at hread ⊢
    rw [readList, skipBlanks_cons hopen]
    dsimp only
    rw [if_neg hne, hread]

end Lists

theorem readAssigned_chars {read : Reader Json} {value : Json} (h : ReadsBack chars read value)
    {rest : List Char} (hrest : StopsNumber rest) :
    readAssigned read (':' :: (chars value ++ rest)) = some (value, rest) := by
  rw [readAssigned, skipBlanks_cons (by decide)]
  show read (skipBlanks (chars value ++ rest)) = _
  rw [h.1.skipBlanks, h.2 rest hrest]

/-- A field is read back when its value is. -/
theorem readsBack_field {read : Reader Json} {name : String} {value : Json}
    (h : ReadsBack chars read value) : ReadsBack fieldChars (readField read) (name, value) := by
  refine ⟨opens_of_mem (by decide) _, fun rest hrest ↦ ?_⟩
  have htext : fieldChars (name, value) ++ rest =
      '"' :: (name.toList.flatMap escaped ++ '"' :: ':' :: (chars value ++ rest)) := by
    simp [fieldChars_mk, quoted]
  rw [htext]
  show (readString _).bind _ = _
  rw [readString_quoted, Option.bind_some]
  show (readAssigned read _).map _ = _
  rw [readAssigned_chars h hrest, Option.map_some]

theorem put_of_not_mem {name : String} {fields : List (String × Json)}
    (h : name ∉ fields.map Prod.fst) (value : Json) :
    put name value fields = fields ++ [(name, value)] := by
  induction fields with
  | nil => rfl
  | cons entry rest ih =>
    rw [List.map_cons, List.mem_cons, not_or] at h
    rw [put, if_neg fun heq ↦ h.1 heq.symm, ih h.2, List.cons_append]

/-- Distinct names are kept as they stand. -/
theorem fieldsOf_of_nodup {fields : List (String × Json)} (h : (fields.map Prod.fst).Nodup) :
    fieldsOf fields = fields := by
  have hrun : ∀ {rest start : List (String × Json)}, ((start ++ rest).map Prod.fst).Nodup →
      rest.foldl (fun fields entry ↦ put entry.1 entry.2 fields) start = start ++ rest := by
    intro rest
    induction rest with
    | nil => exact fun _ ↦ (List.append_nil _).symm
    | cons entry rest ih =>
      intro start hnodup
      have hfresh : entry.1 ∉ start.map Prod.fst := by
        rw [List.map_append, List.nodup_append] at hnodup
        exact fun hmem ↦ hnodup.2.2 _ hmem _ List.mem_cons_self rfl
      rw [List.foldl_cons, put_of_not_mem hfresh, ih (by simpa using hnodup)]
      simp
  exact hrun h

theorem readWord_append (word : String) (value : Json) (rest : List Char) :
    readWord word value (word.toList ++ rest) = some (value, rest) := by
  rw [readWord, if_pos (List.isPrefixOf_iff_prefix.mpr (List.prefix_append _ _)),
    List.drop_left]

theorem readsBack_of_succ {value : Json} (h : Readable value) {depth : ℕ}
    (hdepth : (chars value).length ≤ depth)
    (hread : ∀ inner, depth = inner + 1 → ∀ rest, StopsNumber rest →
      readValue (inner + 1) (chars value ++ rest) = some (value, rest)) :
    ReadsBack chars (readValue depth) value := by
  obtain ⟨inner, rfl⟩ : ∃ inner, depth = inner + 1 := by
    obtain ⟨c, tail, hchars, -⟩ := h.opens
    rw [hchars, List.length_cons] at hdepth
    exact ⟨depth - 1, by omega⟩
  exact ⟨h.opens, hread inner rfl⟩

/-- Every value is read back where the depth allows it. -/
theorem Readable.readsBack {value : Json} (h : Readable value) {depth : ℕ}
    (hdepth : (chars value).length ≤ depth) : ReadsBack chars (readValue depth) value := by
  induction h generalizing depth with
  | null =>
    refine readsBack_of_succ .null hdepth fun inner _ rest _ ↦ ?_
    exact readWord_append "null" .null rest
  | bool value =>
    refine readsBack_of_succ (.bool value) hdepth fun inner _ rest _ ↦ ?_
    cases value with
    | false => exact readWord_append "false" (.bool false) rest
    | true => exact readWord_append "true" (.bool true) rest
  | number hvalue =>
    refine readsBack_of_succ (.number hvalue) hdepth fun inner _ rest hrest ↦ ?_
    obtain ⟨c, tail, hchars, hc⟩ := exists_toChars_eq ⟨_, hvalue⟩
    have hnumber := readNumber_toChars ⟨_, hvalue⟩ hrest
    rw [chars_of_representable hvalue]
    rw [hchars, List.cons_append] at hnumber ⊢
    rw [readValue, if_pos hc, hnumber]
  | string value =>
    refine readsBack_of_succ (.string value) hdepth fun inner _ rest _ ↦ ?_
    have htext : chars (.string value) ++ rest =
        '"' :: (value.toList.flatMap escaped ++ '"' :: rest) := by
      simp [chars_string, quoted]
    rw [htext]
    show (readString _).map _ = _
    rw [readString_quoted, Option.map_some]
  | @array elements helements ih =>
    refine readsBack_of_succ (.array helements) hdepth fun inner hinner rest _ ↦ ?_
    have htext : chars (.array elements) ++ rest =
        '[' :: (commas chars elements ++ ']' :: rest) := by
      simp [chars_array, elementsChars_eq]
    have hlength : (chars (.array elements)).length = (commas chars elements).length + 2 := by
      simp [chars_array, elementsChars_eq]
    have hitems : ∀ element ∈ elements, ReadsBack chars (readValue inner) element := by
      intro element hmem
      have hshort := length_write_le_commas chars hmem
      exact ih element hmem (by omega)
    rw [htext]
    show (readList _ _ _).map _ = _
    rw [readList_commas (Or.inl rfl) hitems, Option.map_some]
  | @object fields hnames hfields ih =>
    refine readsBack_of_succ (.object hnames hfields) hdepth fun inner hinner rest _ ↦ ?_
    have htext : chars (.object fields) ++ rest =
        '\x7b' :: (commas fieldChars fields ++ '\x7d' :: rest) := by
      simp [chars_object, fieldsChars_eq]
    have hlength : (chars (.object fields)).length = (commas fieldChars fields).length + 2 := by
      simp [chars_object, fieldsChars_eq]
    have hitems : ∀ entry ∈ fields, ReadsBack fieldChars (readField (readValue inner)) entry := by
      rintro ⟨name, value⟩ hmem
      have hshort := length_write_le_commas fieldChars hmem
      rw [fieldChars_mk, List.length_append, List.length_cons] at hshort
      have hvalue : (chars value).length ≤ inner := by omega
      exact readsBack_field (ih (name, value) hmem hvalue)
    rw [htext]
    show (readList _ _ _).map _ = _
    rw [readList_commas (Or.inr rfl) hitems, Option.map_some]
    dsimp only
    rw [fieldsOf_of_nodup hnames]

/-- What `stringify` writes is read back. -/
theorem parse_stringify {value : Json} (h : Readable value) :
    parse (stringify value) = some value := by
  have hread := (h.readsBack le_rfl).2 [] nofun
  have hskip := h.opens.skipBlanks []
  rw [List.append_nil] at hread hskip
  rw [parse, stringify, String.toList_ofList, hskip, hread]
  exact if_pos rfl

end FileForge.Foundation.JsonReader
