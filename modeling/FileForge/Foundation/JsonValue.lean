import Mathlib.Data.Rat.Defs

/-!
# JSON values

What a JSON text denotes. The fields of an object are listed in the order of the text. A message
carries the value itself; what `JSON.stringify` writes for it is a matter of `JsonText`.

A record is written field by field, and a field that is `undefined` is left out (`field`); reading a
field of an object gives `none` when the object has no such field (`Json.get`).
-/

set_option autoImplicit false
set_option relaxedAutoImplicit false

namespace FileForge.Foundation.JsonValue

inductive Json
  | null
  | bool (value : Bool)
  | number (value : ℚ)
  | string (value : String)
  | array (elements : List Json)
  | object (fields : List (String × Json))

/-- The value of a field. -/
def Json.get (name : String) : Json → Option Json
  | .object fields => fields.lookup name
  | _ => none

def Json.asString : Json → Option String
  | .string value => some value
  | _ => none

def Json.asNumber : Json → Option ℚ
  | .number value => some value
  | _ => none

/-- A field of a record that is being written; `undefined` leaves it out. -/
def field (name : String) (value : Option Json) : List (String × Json) :=
  (value.map fun present ↦ (name, present)).toList

/-- A written field is found under its name. -/
theorem lookup_field_append_self (name : String) (value : Option Json)
    {fields : List (String × Json)} (habsent : fields.lookup name = none) :
    (field name value ++ fields).lookup name = value := by
  cases value with
  | none => exact habsent
  | some present => simp [field]

/-- A field under another name is passed over. -/
theorem lookup_field_append_of_ne {name other : String} (h : other ≠ name) (value : Option Json)
    (fields : List (String × Json)) :
    (field name value ++ fields).lookup other = fields.lookup other := by
  cases value with
  | none => rfl
  | some present =>
    have hfalse : (other == name) = false := beq_eq_false_iff_ne.mpr h
    simp [field, List.lookup_cons, hfalse]

end FileForge.Foundation.JsonValue
