import FileForge.Foundation.EcmaObject
import FileForge.Foundation.EcmaText
import FileForge.Jobs.Errors

/-!
# The stages around a rewriting

What flows between the stages of a CSV pipeline, the parser at its start and the stringifier at its
end. The text itself is on either side of the model: a document is its records, as the delimiter and
the quotes make them, and a written file is the lines of fields that it holds.

The parser and the stringifier are packages. `Parser` leaves open what the package takes for white
space, how it puts values into the object of a row and how it words its error. `Stringifier` leaves
open what the package finds in an object under a name that is none of its keys, where it may fail;
what is written is a run over the rows, up to the first that fails.
-/

set_option autoImplicit false
set_option relaxedAutoImplicit false

namespace FileForge.Csv.Streams

open Foundation Foundation.EcmaObject Jobs.Errors

/-- What a stage hands on: its items, and then the end of the stream or an error. -/
structure Flow (α : Type) where
  items : List α
  failure : Option JobError

/-- A row in object mode: an object if the columns have names, its fields if not. -/
inductive Row
  | object (object : JsObject String)
  | fields (values : List String)

/-! ### The parser -/

/-- What stands between two delimiters, or between the quotes there. -/
structure Cell where
  text : String
  quoted : Bool
  deriving DecidableEq

abbrev Record := List Cell

/-- The options of `parse` that act on records. -/
structure ParseOptions where
  /-- The first record is the header, and rows are objects. -/
  columns : Bool
  trim : Bool
  skipEmptyLines : Bool
  relaxColumnCount : Bool

structure Parser where
  /-- The characters around a delimiter that `trim` ignores. -/
  space : Char → Bool
  space_isSpace : ∀ c, space c = true → EcmaText.isSpace c = true
  /-- How the values of a row are put under the names of the header. -/
  creation : Creation
  /-- The message for a record that is not as long as the first. -/
  lengthMessage : List String → List String → String

/-- `trim` leaves what is quoted alone. -/
def Parser.read (parser : Parser) (trim : Bool) (cell : Cell) : String :=
  if trim && !cell.quoted then EcmaText.strip parser.space cell.text else cell.text

/-- An empty line is a record of one empty field without quotes. -/
def Parser.isEmptyLine (parser : Parser) (trim : Bool) : Record → Bool
  | [cell] => !cell.quoted && parser.read trim cell = ""
  | _ => false

/-- The records that are no empty lines. -/
def Parser.lines (parser : Parser) (trim : Bool) (records : List Record) : List Record :=
  records.filter fun record ↦ !parser.isEmptyLine trim record

/-- The object of a row: its values are put under the names of the header, one after the other. -/
def Parser.rowObject (parser : Parser) (header values : List String) : JsObject String :=
  JsObject.ofEntries parser.creation (header.zip values)

/-- The rows of a document, up to the first record that is not as long as the first. -/
def Parser.parse (parser : Parser) (options : ParseOptions) (records : List Record) : Flow Row :=
  let lines := if options.skipEmptyLines then parser.lines options.trim records else records
  match lines.map (List.map (parser.read options.trim)) with
  | [] => { items := [], failure := none }
  | first :: rest =>
    let fits (values : List String) : Bool :=
      options.relaxColumnCount || values.length = first.length
    let rows := (rest.takeWhile fits).map fun values ↦
      if options.columns then Row.object (parser.rowObject first values) else Row.fields values
    { items := if options.columns then rows else Row.fields first :: rows
      failure := (rest.find? fun values ↦ !fits values).map fun values ↦
        .error (parser.lengthMessage first values) }

/-! ### The stringifier -/

structure Stringifier where
  /-- What is written of a record under a listed name that is none of its keys, or why it cannot be.
  Such a name may lead to a property that every object has, or along a path; what is no text, no
  number and no object is refused. -/
  beyond : JsObject String → String → Except String String

namespace Stringifier

variable (stringifier : Stringifier)

/-- What is written of a record under a name. -/
def fieldOf (record : JsObject String) (name : String) : Except String String :=
  match record.get name with
  | some value => .ok value
  | none => stringifier.beyond record name

/-- A row under some columns; a row of fields has them in order. -/
def writeRow (columns : List String) : Row → Except String (List String)
  | .object record => columns.mapM (stringifier.fieldOf record)
  | .fields values => .ok (values.take columns.length)

/-- A row without columns. -/
def writeBare : Row → Except String (List String)
  | .object record => record.keys.mapM (stringifier.fieldOf record)
  | .fields values => .ok values

/-- The columns are those that are listed, or the keys of the first record. -/
def columnsOf (columns : Option (List String)) (rows : List Row) : Option (List String) :=
  match columns, rows with
  | some columns, _ => some columns
  | none, .object first :: _ => some first.keys
  | none, _ => none

/-- `stringify({ header, columns })`, as the lines that it writes of the rows it is handed, or its
error at the first row that it cannot write. -/
def write (header : Bool) (columns : Option (List String)) (rows : List Row) :
    Except String (List (List String)) :=
  match columnsOf columns rows with
  | some columns => (rows.mapM (stringifier.writeRow columns)).map fun lines ↦
      if header then columns :: lines else lines
  | none => rows.mapM stringifier.writeBare

/-- A name that is no key is written as an empty field. -/
def Blank : Prop := ∀ record name, stringifier.beyond record name = .ok ""

/-- A stringifier by this rule. -/
def plain : Stringifier where
  beyond _ _ := .ok ""

theorem blank_plain : plain.Blank := fun _ _ ↦ rfl

end Stringifier

/-- The value of a record under a name, empty when absent. -/
def fieldOf (record : JsObject String) (name : String) : String := (record.get name).getD ""

/-- A parser that ignores spaces, tabs, form feeds and line ends around a delimiter, and defines the
properties of an object. -/
def Parser.plain : Parser where
  space c := [' ', '\t', '\x0c', '\r', '\n'].contains c
  space_isSpace := by
    intro c hc
    simp only [List.contains_eq_mem, List.mem_cons, List.not_mem_nil, or_false,
      decide_eq_true_eq] at hc
    rcases hc with rfl | rfl | rfl | rfl | rfl <;> decide
  creation := .defined
  lengthMessage _ _ := "Invalid Record Length"

/-! ### Reading a cell -/

/-- What the parser has trimmed is what `String.prototype.trim` would have removed. -/
theorem Parser.trim_read (parser : Parser) (trim : Bool) (cell : Cell) :
    EcmaText.trim (parser.read trim cell) = EcmaText.trim cell.text := by
  rw [Parser.read]
  split_ifs
  · exact EcmaText.trim_strip parser.space_isSpace cell.text
  · rfl

theorem Parser.read_false (parser : Parser) (cell : Cell) : parser.read false cell = cell.text := by
  simp [Parser.read]

/-! ### Written rows -/

/-- Assumes: every item comes out. -/
theorem mapM_of_forall {α β : Type} {f : α → Except String β} {g : α → β} {items : List α}
    (h : ∀ item ∈ items, f item = .ok (g item)) : items.mapM f = .ok (items.map g) := by
  induction items with
  | nil => rfl
  | cons item rest ih =>
    rw [List.mapM_cons, h item List.mem_cons_self,
      ih fun other hother ↦ h other (List.mem_cons_of_mem item hother)]
    rfl

/-- All items come out exactly when each of them does. -/
theorem exists_mapM_iff {α β : Type} (f : α → Except String β) (items : List α) :
    (∃ values, items.mapM f = .ok values) ↔ ∀ item ∈ items, ∃ value, f item = .ok value := by
  induction items with
  | nil => simp [pure, Except.pure]
  | cons item rest ih =>
    rw [List.forall_mem_cons, ← ih, List.mapM_cons]
    cases hitem : f item with
    | error message => simp [bind, Except.bind]
    | ok value =>
      cases hrest : rest.mapM f with
      | error message => simp [bind, Except.bind]
      | ok values => simp [bind, Except.bind, pure, Except.pure]

/-- The record has something that can be written under every listed name. -/
def Stringifier.Writes (stringifier : Stringifier) (columns : List String)
    (record : JsObject String) : Prop :=
  ∀ name ∈ columns, record.get name = none → ∃ text, stringifier.beyond record name = .ok text

variable (stringifier : Stringifier)

theorem Stringifier.exists_writeRow_iff (columns : List String) (record : JsObject String) :
    (∃ line, stringifier.writeRow columns (.object record) = .ok line) ↔
      stringifier.Writes columns record := by
  rw [writeRow, exists_mapM_iff]
  refine forall₂_congr fun name _ ↦ ?_
  rw [Stringifier.fieldOf]
  cases record.get name <;> simp

theorem Stringifier.write_objects (header : Bool) (columns : List String)
    (records : List (JsObject String)) :
    stringifier.write header (some columns) (records.map .object) =
      (records.mapM fun record ↦ stringifier.writeRow columns (.object record)).map fun lines ↦
        if header then columns :: lines else lines :=
  congrArg (Except.map _) List.mapM_map

/-- Listed columns are written exactly when they can be of every record. -/
theorem Stringifier.exists_write_listed_iff (header : Bool) (columns : List String)
    (records : List (JsObject String)) :
    (∃ lines, stringifier.write header (some columns) (records.map .object) = .ok lines) ↔
      ∀ record ∈ records, stringifier.Writes columns record := by
  have hmapped : (∃ lines, stringifier.write header (some columns) (records.map .object) =
      .ok lines) ↔
      ∃ lines, (records.mapM fun record ↦ stringifier.writeRow columns (.object record)) =
        .ok lines := by
    rw [write_objects]
    cases records.mapM fun record ↦ stringifier.writeRow columns (.object record) with
    | error message => simp [Except.map]
    | ok lines => simp [Except.map]
  rw [hmapped, exists_mapM_iff]
  exact forall₂_congr fun record _ ↦ stringifier.exists_writeRow_iff columns record

/-- Columns that are listed are the header, and every record is written under them. Assumes: a name
that is no key is written as an empty field. -/
theorem Stringifier.write_listed (hblank : stringifier.Blank) (columns : List String)
    (records : List (JsObject String)) :
    stringifier.write true (some columns) (records.map .object) =
      .ok (columns :: records.map fun record ↦ columns.map (Streams.fieldOf record)) := by
  have hrow : ∀ record : JsObject String, stringifier.writeRow columns (.object record) =
      .ok (columns.map (Streams.fieldOf record)) := fun record ↦
    mapM_of_forall fun name _ ↦ by
      rw [Stringifier.fieldOf, Streams.fieldOf]
      cases record.get name with
      | some value => rfl
      | none => exact hblank record name
  rw [write_objects, mapM_of_forall fun record _ ↦ hrow record]
  rfl

theorem Stringifier.exists_write_nil (header : Bool) (columns : Option (List String)) :
    ∃ lines, stringifier.write header columns [] = .ok lines := by
  cases columns with
  | none => exact ⟨[], rfl⟩
  | some columns => exact ⟨if header then [columns] else [], rfl⟩

/-- Without a record there is nothing to take columns from. -/
theorem Stringifier.write_inferred_nil (header : Bool) : stringifier.write header none [] = .ok [] :=
  rfl

/-- Columns that are not listed are the keys of the first record. Assumes: all records have these
keys. -/
theorem Stringifier.write_inferred (first : JsObject String) (records : List (JsObject String))
    (hkeys : ∀ record ∈ records, record.keys = first.keys) :
    stringifier.write true none ((first :: records).map .object) =
      .ok (first.keys ::
        (first :: records).map fun record ↦ first.keys.map (Streams.fieldOf record)) := by
  have hrow : ∀ record ∈ first :: records, stringifier.writeRow first.keys (.object record) =
      .ok (first.keys.map (Streams.fieldOf record)) := by
    intro record hrecord
    have hsame : record.keys = first.keys := by
      rcases List.mem_cons.1 hrecord with rfl | hrest
      · rfl
      · exact hkeys record hrest
    refine mapM_of_forall fun name hname ↦ ?_
    rw [← hsame] at hname
    obtain ⟨value, hvalue⟩ := record.get_of_mem_keys hname
    rw [Stringifier.fieldOf, Streams.fieldOf, hvalue]
    rfl
  have hlisted := stringifier.write_objects true first.keys (first :: records)
  rw [mapM_of_forall hrow] at hlisted
  exact hlisted

end FileForge.Csv.Streams
