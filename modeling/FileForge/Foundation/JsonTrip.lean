import FileForge.Foundation.JsonReader

/-!
# A value that is written and read again

A program that receives a value and hands it on as a text writes what it has read. A value that
`parse` has made gives every name of an object once (`parse_distinct`), but its numbers may be too
large for a double, and `stringify` writes `null` for an infinite number. `parse_stringify_settled`
says what arrives: the value in which every number is rounded and every infinite one is `null`. It
is the value itself when all numbers are doubles (`settled_of_readable`).
-/

set_option autoImplicit false
set_option relaxedAutoImplicit false

namespace FileForge.Foundation.JsonTrip

open JsonValue EcmaNumber EcmaObject JsonText JsonReader

/-! ### Distinct names -/

/-- Every object gives each of its names once. -/
inductive Distinct : Json → Prop
  | null : Distinct .null
  | bool (value : Bool) : Distinct (.bool value)
  | number (value : ℚ) : Distinct (.number value)
  | string (value : String) : Distinct (.string value)
  | array {elements : List Json} (h : ∀ element ∈ elements, Distinct element) :
    Distinct (.array elements)
  | object {fields : List (String × Json)} (hnames : (fields.map Prod.fst).Nodup)
    (h : ∀ entry ∈ fields, Distinct entry.2) : Distinct (.object fields)

theorem Distinct.of_object {fields : List (String × Json)} (h : Distinct (.object fields)) :
    (fields.map Prod.fst).Nodup ∧ ∀ entry ∈ fields, Distinct entry.2 := by
  cases h with
  | object hnames hfields => exact ⟨hnames, hfields⟩

theorem mem_of_lookup {name : String} {fields : List (String × Json)} {value : Json}
    (h : fields.lookup name = some value) : (name, value) ∈ fields := by
  induction fields with
  | nil => cases h
  | cons entry rest ih =>
    rw [lookup_cons_ite] at h
    split_ifs at h with hname
    · cases h
      rw [hname]
      exact List.mem_cons_self
    · exact List.mem_cons_of_mem entry (ih h)

theorem Distinct.of_get {value found : Json} {name : String} (h : Distinct value)
    (hget : value.get name = some found) : Distinct found := by
  cases h with
  | object _ hfields => exact hfields (name, found) (mem_of_lookup hget)
  | null => cases hget
  | bool _ => cases hget
  | number _ => cases hget
  | string _ => cases hget
  | array _ => cases hget

/-- The values that a reader can give have a property. -/
def Gives {α : Type} (property : α → Prop) (read : Reader α) : Prop :=
  ∀ chars value rest, read chars = some (value, rest) → property value

section Lists

variable {α : Type} {property : α → Prop} {item : Reader α} {last : Char}

theorem gives_readItems (hitem : Gives property item) (limit : ℕ) :
    Gives (fun items ↦ ∀ value ∈ items, property value) (readItems last item limit) := by
  induction limit with
  | zero => exact fun _ _ _ hread ↦ by cases hread
  | succ limit ih =>
    intro chars items after hread
    rw [readItems] at hread
    split at hread
    · cases hread
    · rename_i first rest hfirst
      have hproperty : property first := hitem _ _ _ hfirst
      split at hread
      · cases hread
      · split_ifs at hread
        · obtain ⟨⟨others, _⟩, hothers, hpair⟩ := Option.map_eq_some_iff.mp hread
          cases hpair
          exact List.forall_mem_cons.mpr ⟨hproperty, ih _ _ _ hothers⟩
        · cases hread
          exact List.forall_mem_singleton.mpr hproperty

theorem gives_readList (hitem : Gives property item) :
    Gives (fun items ↦ ∀ value ∈ items, property value) (readList last item) := by
  intro chars items after hread
  rw [readList] at hread
  split at hread
  · cases hread
  · split_ifs at hread
    · cases hread
      exact fun _ hvalue ↦ absurd hvalue List.not_mem_nil
    · exact gives_readItems hitem _ _ _ _ hread

end Lists

theorem gives_readField {property : Json → Prop} {read : Reader Json} (h : Gives property read) :
    Gives (fun entry ↦ property entry.2) (readField read) := by
  intro chars entry after hread
  unfold readField at hread
  split at hread
  · obtain ⟨⟨name, rest⟩, -, hassigned⟩ := Option.bind_eq_some_iff.mp hread
    obtain ⟨⟨value, _⟩, hvalue, hpair⟩ := Option.map_eq_some_iff.mp hassigned
    cases hpair
    unfold readAssigned at hvalue
    split at hvalue
    · exact h _ _ _ hvalue
    · cases hvalue
  · cases hread

theorem mem_put {name : String} {value : Json} {fields : List (String × Json)}
    {entry : String × Json} (h : entry ∈ put name value fields) :
    entry = (name, value) ∨ entry ∈ fields := by
  induction fields with
  | nil => exact List.mem_cons.mp h
  | cons first rest ih =>
    rw [put] at h
    split_ifs at h
    · exact (List.mem_cons.mp h).imp id (List.mem_cons_of_mem first)
    · rcases List.mem_cons.mp h with rfl | hrest
      · exact Or.inr List.mem_cons_self
      · exact (ih hrest).imp id (List.mem_cons_of_mem first)

/-- An object that is read has the values of its entries, each name once. -/
theorem fieldsOf_spec (entries : List (String × Json)) :
    ((fieldsOf entries).map Prod.fst).Nodup ∧ ∀ entry ∈ fieldsOf entries, entry ∈ entries := by
  have hrun : ∀ (rest start : List (String × Json)), (start.map Prod.fst).Nodup →
      ((rest.foldl (fun fields entry ↦ put entry.1 entry.2 fields) start).map Prod.fst).Nodup ∧
        ∀ entry ∈ rest.foldl (fun fields entry ↦ put entry.1 entry.2 fields) start,
          entry ∈ start ∨ entry ∈ rest := by
    intro rest
    induction rest with
    | nil => exact fun start hstart ↦ ⟨hstart, fun entry hentry ↦ Or.inl hentry⟩
    | cons first rest ih =>
      intro start hstart
      obtain ⟨hnodup, hmem⟩ := ih (put first.1 first.2 start) (nodup_names_put _ _ hstart)
      refine ⟨hnodup, fun entry hentry ↦ ?_⟩
      rcases hmem entry hentry with hput | hrest
      · rcases mem_put hput with rfl | hbefore
        · exact Or.inr List.mem_cons_self
        · exact Or.inl hbefore
      · exact Or.inr (List.mem_cons_of_mem first hrest)
  obtain ⟨hnodup, hmem⟩ := hrun entries [] List.nodup_nil
  exact ⟨hnodup, fun entry hentry ↦ (hmem entry hentry).resolve_left List.not_mem_nil⟩

theorem gives_readNumber : Gives Distinct readNumber := by
  intro chars value rest hread
  obtain ⟨found, hnumber, hpair⟩ := Option.map_eq_some_iff.mp hread
  cases hpair
  rw [numberOf] at hnumber
  split_ifs at hnumber
  split at hnumber
  · cases hnumber
    exact .number _
  · obtain ⟨large, -, rfl⟩ := Option.map_eq_some_iff.mp hnumber
    exact .number _

theorem gives_readWord {word : String} {value : Json} (h : Distinct value) :
    Gives Distinct (readWord word value) := by
  intro chars found rest hread
  rw [readWord] at hread
  split_ifs at hread
  cases hread
  exact h

theorem gives_readValue (depth : ℕ) : Gives Distinct (readValue depth) := by
  induction depth with
  | zero => exact fun _ _ _ hread ↦ by cases hread
  | succ depth ih =>
    intro chars value after hread
    cases chars with
    | nil => cases hread
    | cons c rest =>
      rw [readValue] at hread
      split_ifs at hread
      · exact gives_readNumber _ _ _ hread
      · obtain ⟨⟨text, _⟩, -, hpair⟩ := Option.map_eq_some_iff.mp hread
        cases hpair
        exact .string text
      · obtain ⟨⟨elements, _⟩, helements, hpair⟩ := Option.map_eq_some_iff.mp hread
        cases hpair
        exact .array (gives_readList ih _ _ _ helements)
      · obtain ⟨⟨entries, _⟩, hentries, hpair⟩ := Option.map_eq_some_iff.mp hread
        cases hpair
        obtain ⟨hnodup, hmem⟩ := fieldsOf_spec entries
        exact .object hnodup fun entry hentry ↦
          gives_readList (gives_readField ih) _ _ _ hentries entry (hmem entry hentry)
      · exact gives_readWord (.bool true) _ _ _ hread
      · exact gives_readWord (.bool false) _ _ _ hread
      · exact gives_readWord .null _ _ _ hread

/-- What `parse` makes of a text gives every name once. -/
theorem parse_distinct {text : String} {value : Json} (h : parse text = some value) :
    Distinct value := by
  unfold parse at h
  split at h
  · rename_i found rest hread
    split_ifs at h
    cases h
    exact gives_readValue _ _ _ _ hread
  · cases h

/-! ### What is written -/

/-- A number as it arrives. -/
def settledNumber (value : ℚ) : Json :=
  match ofRat value with
  | .finite double => .number double.value
  | _ => .null

mutual

/-- The value that arrives: an infinite number is written as `null`. -/
def settled : Json → Json
  | .number value => settledNumber value
  | .array elements => .array (settledElements elements)
  | .object fields => .object (settledFields fields)
  | .null => .null
  | .bool value => .bool value
  | .string value => .string value

def settledElements : List Json → List Json
  | [] => []
  | element :: rest => settled element :: settledElements rest

def settledFields : List (String × Json) → List (String × Json)
  | [] => []
  | pair :: rest => settledField pair :: settledFields rest

def settledField : String × Json → String × Json
  | (name, value) => (name, settled value)

end

@[simp] theorem settled_string (text : String) : settled (.string text) = .string text := rfl

@[simp] theorem settled_object (fields : List (String × Json)) :
    settled (.object fields) = .object (settledFields fields) := rfl

theorem settledElements_eq (elements : List Json) :
    settledElements elements = elements.map settled := by
  induction elements with
  | nil => rfl
  | cons element rest ih => rw [settledElements, ih, List.map_cons]

theorem settledFields_eq (fields : List (String × Json)) :
    settledFields fields = fields.map fun entry ↦ (entry.1, settled entry.2) := by
  induction fields with
  | nil => rfl
  | cons entry rest ih =>
    rw [settledFields, ih, List.map_cons, settledField]

theorem chars_settledNumber (value : ℚ) : chars (settledNumber value) = numberChars value := by
  rw [settledNumber, numberChars]
  cases ofRat value with
  | finite double =>
    show numberChars double.value = _
    rw [numberChars, ofRat_value]
  | nan => rfl
  | posInf => rfl
  | negInf => rfl

mutual

/-- The text does not tell a value from the one that arrives. -/
theorem chars_settled : ∀ value : Json, chars (settled value) = chars value
  | .number value => chars_settledNumber value
  | .array elements => by
    rw [settled, chars_array, chars_array, elementsChars_settled elements]
  | .object fields => by
    rw [settled, chars_object, chars_object, fieldsChars_settled fields]
  | .null => rfl
  | .bool _ => rfl
  | .string _ => rfl

theorem elementsChars_settled : ∀ elements : List Json,
    elementsChars (settledElements elements) = elementsChars elements
  | [] => rfl
  | [element] => chars_settled element
  | element :: next :: rest => by
    have hrest := elementsChars_settled (next :: rest)
    rw [settledElements] at hrest
    rw [settledElements, settledElements, elementsChars_cons_cons, elementsChars_cons_cons,
      chars_settled element, hrest]

theorem fieldsChars_settled : ∀ fields : List (String × Json),
    fieldsChars (settledFields fields) = fieldsChars fields
  | [] => rfl
  | [pair] => fieldChars_settled pair
  | pair :: next :: rest => by
    have hrest := fieldsChars_settled (next :: rest)
    rw [settledFields] at hrest
    rw [settledFields, settledFields, fieldsChars_cons_cons, fieldsChars_cons_cons,
      fieldChars_settled pair, hrest]

theorem fieldChars_settled : ∀ pair : String × Json,
    fieldChars (settledField pair) = fieldChars pair
  | (name, value) => by
    rw [settledField, fieldChars_mk, fieldChars_mk, chars_settled value]

end

theorem readable_settledNumber (value : ℚ) : Readable (settledNumber value) := by
  rw [settledNumber]
  split
  · rename_i double _
    exact .number double.representable
  · exact .null

/-- What arrives can be read back. -/
theorem Distinct.readable_settled {value : Json} (h : Distinct value) :
    Readable (settled value) := by
  induction h with
  | null => exact .null
  | bool value => exact .bool value
  | number value => exact readable_settledNumber value
  | string value => exact .string value
  | array _ ih =>
    rw [settled, settledElements_eq]
    exact .array (List.forall_mem_map.mpr ih)
  | object hnames _ ih =>
    rw [settled, settledFields_eq]
    refine .object ?_ (List.forall_mem_map.mpr ih)
    rw [List.map_map]
    exact hnames

/-- What arrives when a value is written and read. -/
theorem parse_stringify_settled {value : Json} (h : Distinct value) :
    parse (stringify value) = some (settled value) := by
  have htext : stringify value = stringify (settled value) := by
    rw [stringify, stringify, chars_settled]
  rw [htext, parse_stringify h.readable_settled]

theorem settledNumber_of_representable {value : ℚ} (h : Binary64.Representable value) :
    settledNumber value = .number value := by
  rw [settledNumber, ofRat_value ⟨value, h⟩]

theorem settled_of_readable {value : Json} (h : Readable value) : settled value = value := by
  have hdistinct : Distinct value := by
    induction h with
    | null => exact .null
    | bool value => exact .bool value
    | number _ => exact .number _
    | string value => exact .string value
    | array _ ih => exact .array ih
    | object hnames _ ih => exact .object hnames ih
  have hread := parse_stringify_settled hdistinct
  rw [parse_stringify h] at hread
  exact (Option.some.inj hread).symm

end FileForge.Foundation.JsonTrip
