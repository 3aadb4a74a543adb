import FileForge.Foundation.EcmaNumber
import FileForge.Foundation.JsonValue

/-!
# The text of a JSON value

`JSON.stringify` without indentation. A string is quoted with the escapes of ECMAScript: the quote,
the backslash and every control character are escaped, and all other characters, the line and
paragraph separators among them, stand for themselves. A number is written as `Number.toString`
writes it, and one that is too large for a double, which would be infinite, as `null`.

`isPlain_stringify` is what a line-based format can rely on: a written value has no control
character anywhere, so no line ends inside it.
-/

set_option autoImplicit false
set_option relaxedAutoImplicit false

namespace FileForge.Foundation.JsonText

open JsonValue

/-! ### Writing -/

/-- A character inside the quotes. -/
def escaped (c : Char) : List Char :=
  if c = '"' then ['\\', '"']
  else if c = '\\' then ['\\', '\\']
  else if c.toNat = 0x8 then ['\\', 'b']
  else if c.toNat = 0x9 then ['\\', 't']
  else if c.toNat = 0xA then ['\\', 'n']
  else if c.toNat = 0xC then ['\\', 'f']
  else if c.toNat = 0xD then ['\\', 'r']
  else if c.toNat < 0x20 then
    ['\\', 'u', '0', '0', Nat.digitChar (c.toNat / 16), Nat.digitChar (c.toNat % 16)]
  else [c]

def quoted (text : String) : List Char := '"' :: (text.toList.flatMap escaped ++ ['"'])

def numberChars (value : ℚ) : List Char :=
  match EcmaNumber.ofRat value with
  | .finite double => EcmaNumber.toChars (.finite double)
  | _ => ['n', 'u', 'l', 'l']

mutual

/-- A value. -/
def chars : Json → List Char
  | .null => ['n', 'u', 'l', 'l']
  | .bool true => ['t', 'r', 'u', 'e']
  | .bool false => ['f', 'a', 'l', 's', 'e']
  | .number value => numberChars value
  | .string value => quoted value
  | .array elements => '[' :: (elementsChars elements ++ [']'])
  | .object fields => '\x7b' :: (fieldsChars fields ++ ['\x7d'])

/-- Elements, with a comma between two. -/
def elementsChars : List Json → List Char
  | [] => []
  | [element] => chars element
  | element :: next :: rest => chars element ++ ',' :: elementsChars (next :: rest)

/-- Fields, with a comma between two. -/
def fieldsChars : List (String × Json) → List Char
  | [] => []
  | [pair] => fieldChars pair
  | pair :: next :: rest => fieldChars pair ++ ',' :: fieldsChars (next :: rest)

/-- A field: its name, a colon and its value. -/
def fieldChars : String × Json → List Char
  | (name, value) => quoted name ++ ':' :: chars value

end

theorem chars_number (value : ℚ) : chars (.number value) = numberChars value := rfl

theorem chars_string (value : String) : chars (.string value) = quoted value := rfl

theorem chars_array (elements : List Json) :
    chars (.array elements) = '[' :: (elementsChars elements ++ [']']) := rfl

theorem chars_object (fields : List (String × Json)) :
    chars (.object fields) = '\x7b' :: (fieldsChars fields ++ ['\x7d']) := rfl

theorem elementsChars_cons_cons (element next : Json) (rest : List Json) :
    elementsChars (element :: next :: rest) =
      chars element ++ ',' :: elementsChars (next :: rest) := rfl

theorem fieldsChars_cons_cons (pair next : String × Json) (rest : List (String × Json)) :
    fieldsChars (pair :: next :: rest) =
      fieldChars pair ++ ',' :: fieldsChars (next :: rest) := rfl

theorem fieldChars_mk (name : String) (value : Json) :
    fieldChars (name, value) = quoted name ++ ':' :: chars value := rfl

/-- `JSON.stringify`. -/
def stringify (value : Json) : String := String.ofList (chars value)

example : stringify (.array [.number 1.5, .string "x\n", .null]) = "[1.5,\"x\\n\",null]" := by
  decide +kernel

/-! ### No control characters -/

/-- No control character of ASCII. -/
def IsPlain (c : Char) : Prop := 0x20 ≤ c.toNat

instance : DecidablePred IsPlain := fun _ ↦ inferInstanceAs (Decidable (_ ≤ _))

theorem IsPlain.of_isNumberChar {c : Char} (h : EcmaNumber.IsNumberChar c) : IsPlain c := by
  rcases h with hdigit | hother
  · have hrange : 48 ≤ c.toNat ∧ c.toNat ≤ 57 := Char.isDigit_iff_toNat.mp hdigit
    exact Nat.le_trans (by decide) hrange.1
  · exact EcmaText.forall_mem_of_all (by decide) c hother

/-- The digits of two hexadecimal places. -/
theorem isPlain_digitChar : ∀ n < 16, IsPlain (Nat.digitChar n) := by
  decide

/-- A control character is written with an escape, and every other character is plain. -/
theorem isPlain_escaped (c : Char) : ∀ d ∈ escaped c, IsPlain d := by
  unfold escaped
  split_ifs with hquote hbackslash hbackspace htab hline hfeed hreturn hcontrol
  any_goals
    apply EcmaText.forall_mem_of_all
    decide
  · intro d hd
    have hcases : d ∈ ['\\', 'u', '0', '0'] ∨ d = Nat.digitChar (c.toNat / 16) ∨
        d = Nat.digitChar (c.toNat % 16) := by
      simpa only [List.mem_cons, List.not_mem_nil, or_false, or_assoc] using hd
    rcases hcases with hstart | rfl | rfl
    · exact EcmaText.forall_mem_of_all (by decide) d hstart
    · exact isPlain_digitChar _ (Nat.div_lt_of_lt_mul (Nat.lt_trans hcontrol (by decide)))
    · exact isPlain_digitChar _ (Nat.mod_lt _ (by decide))
  · intro d hd
    rw [List.mem_singleton.mp hd]
    exact Nat.le_of_not_lt hcontrol

theorem isPlain_quoted (text : String) : ∀ c ∈ quoted text, IsPlain c := by
  intro c hc
  rcases List.mem_cons.mp hc with rfl | hrest
  · decide
  rcases List.mem_append.mp hrest with hinside | hend
  · obtain ⟨original, -, hescaped⟩ := List.mem_flatMap.mp hinside
    exact isPlain_escaped original c hescaped
  · rw [List.mem_singleton.mp hend]
    decide

theorem isPlain_numberChars (value : ℚ) : ∀ c ∈ numberChars value, IsPlain c := by
  unfold numberChars
  split
  · exact fun c hc ↦ .of_isNumberChar (EcmaNumber.isNumberChar_toChars _ c hc)
  · exact EcmaText.forall_mem_of_all (by decide)

/-- What stands between brackets is plain when the inside is. -/
theorem isPlain_enclosed {first last : Char} (hfirst : IsPlain first) (hlast : IsPlain last)
    {inside : List Char} (h : ∀ c ∈ inside, IsPlain c) :
    ∀ c ∈ first :: (inside ++ [last]), IsPlain c := by
  intro c hc
  rcases List.mem_cons.mp hc with rfl | hrest
  · exact hfirst
  rcases List.mem_append.mp hrest with hinside | hend
  · exact h c hinside
  · rw [List.mem_singleton.mp hend]
    exact hlast

/-- Two plain texts joined at a plain character. -/
theorem isPlain_joined {separator : Char} (hseparator : IsPlain separator)
    {left right : List Char} (hleft : ∀ c ∈ left, IsPlain c) (hright : ∀ c ∈ right, IsPlain c) :
    ∀ c ∈ left ++ separator :: right, IsPlain c := by
  intro c hc
  rcases List.mem_append.mp hc with h | h
  · exact hleft c h
  rcases List.mem_cons.mp h with rfl | h
  · exact hseparator
  · exact hright c h

mutual

/-- A written value has no control character. -/
theorem isPlain_chars : ∀ value : Json, ∀ c ∈ chars value, IsPlain c
  | .null | .bool true | .bool false => EcmaText.forall_mem_of_all (by decide)
  | .number value => isPlain_numberChars value
  | .string value => isPlain_quoted value
  | .array elements =>
    isPlain_enclosed (by decide) (by decide) (isPlain_elementsChars elements)
  | .object fields =>
    isPlain_enclosed (by decide) (by decide) (isPlain_fieldsChars fields)

theorem isPlain_elementsChars : ∀ elements : List Json, ∀ c ∈ elementsChars elements, IsPlain c
  | [] => fun _ hc ↦ absurd hc List.not_mem_nil
  | [element] => isPlain_chars element
  | element :: next :: rest =>
    isPlain_joined (by decide) (isPlain_chars element) (isPlain_elementsChars (next :: rest))

theorem isPlain_fieldsChars :
    ∀ fields : List (String × Json), ∀ c ∈ fieldsChars fields, IsPlain c
  | [] => fun _ hc ↦ absurd hc List.not_mem_nil
  | [pair] => isPlain_fieldChars pair
  | pair :: next :: rest =>
    isPlain_joined (by decide) (isPlain_fieldChars pair) (isPlain_fieldsChars (next :: rest))

theorem isPlain_fieldChars : ∀ pair : String × Json, ∀ c ∈ fieldChars pair, IsPlain c
  | (name, value) => isPlain_joined (by decide) (isPlain_quoted name) (isPlain_chars value)

end

theorem isPlain_stringify (value : Json) : ∀ c ∈ (stringify value).toList, IsPlain c := by
  rw [stringify, String.toList_ofList]
  exact isPlain_chars value

end FileForge.Foundation.JsonText
