import FileForge.Csv.Streams
import FileForge.Foundation.Tables

/-!
# `csv.transform`

`transformCsv` of `src/jobs/csv.ts` between the records of the source and the lines of the file:
parser, `reshape`, stringifier. `reshape` is a stage with four variables that it changes row by row
(`ReshapeState`); it fixes the selected columns at the first row that leaves it with some.

`reshapeRow_object` is one row and `reshapeRows_objects` a run over rows with the same keys: the
counters count, the selection stays what the keys and the request make it, and the rows handed on
are those that `keepsValues` keeps, in order. `transformCsv_table` puts the three stages together
for the document of a table, and `pushed_values_iff` says when the objects handed on are the selected
columns of the tidied table: they have no value under `__proto__`.
-/

set_option autoImplicit false
set_option relaxedAutoImplicit false

namespace FileForge.Csv.Transform

open Foundation Foundation.EcmaObject Foundation.Tables Jobs.Errors Streams

/-! ### Options and state -/

/-- `MAX_ROWS` -/
def maxRows : ℕ := 5000000

/-- `TransformOptionsSchema` after its defaults, without the delimiter, which the records are made
with. -/
structure TransformOptions where
  hasHeader : Bool := true
  /-- Columns to keep, by name. Empty means keep everything. -/
  columns : List String := []
  /-- Strip surrounding whitespace from every value. -/
  trim : Bool := true
  /-- Drop rows where every kept value is empty. -/
  dropEmptyRows : Bool := true

/-- The variables that `reshape` closes over. -/
structure ReshapeState where
  seen : ℕ := 0
  kept : ℕ := 0
  dropped : ℕ := 0
  selectedColumns : List String := []
  deriving DecidableEq

/-! ### `reshape` -/

/-- The columns that a first row with these keys settles on. -/
def selectColumns (options : TransformOptions) (available : List String) :
    Except JobError (List String) :=
  let selected :=
    if 0 < options.columns.length then options.columns.filter fun name ↦ available.contains name
    else available
  if 0 < options.columns.length ∧ selected.length = 0 then
    .error (.invalidCsv ("none of the requested columns exist (available: " ++
      ", ".intercalate available ++ ")"))
  else .ok selected

/-- The columns at a row with these keys: the selection is made while there is none. -/
def selectionAt (options : TransformOptions) (state : ReshapeState) (available : List String) :
    Except JobError (List String) :=
  if state.selectedColumns.length = 0 then selectColumns options available
  else .ok state.selectedColumns

/-- `options.trim ? value.trim() : value` -/
def tidy (options : TransformOptions) (value : String) : String :=
  if options.trim then EcmaText.trim value else value

/-- The tidied value of a row under a name. The names asked for are keys of the row. -/
def cleaned (options : TransformOptions) (row : JsObject String) (name : String) : String :=
  tidy options ((row.get name).getD "")

/-- Whether a row with these values is handed on. -/
def keepsValues (options : TransformOptions) (values : List String) : Bool :=
  !(options.dropEmptyRows && values.all fun value ↦ value = "")

def keepsObject (options : TransformOptions) (selected : List String) (row : JsObject String) :
    Bool :=
  keepsValues options (selected.map (cleaned options row))

/-- The object that is handed on: the tidied values are assigned to the selected names. -/
def outputOf (options : TransformOptions) (selected : List String) (row : JsObject String) :
    JsObject String :=
  JsObject.ofEntries .assigned (selected.map fun name ↦ (name, cleaned options row name))

/-- One row through `reshape`, and the row handed on, if any. Reports of progress are left out. -/
def reshapeRow (options : TransformOptions) (state : ReshapeState) (row : Row) :
    Except JobError (ReshapeState × Option Row) :=
  let state := { state with seen := state.seen + 1 }
  if maxRows < state.seen then
    .error (.invalidCsv ("more than " ++ toString maxRows ++ " rows"))
  else
    match row with
    | .fields values => .ok ({ state with kept := state.kept + 1 }, some (.fields values))
    | .object row => do
      let selected ← selectionAt options state row.keys
      let state := { state with selectedColumns := selected }
      if keepsObject options selected row then
        .ok ({ state with kept := state.kept + 1 },
          some (.object (outputOf options selected row)))
      else .ok ({ state with dropped := state.dropped + 1 }, none)

/-- The rows one after the other, up to the first that fails. -/
def reshapeRows (options : TransformOptions) : ReshapeState → List Row → ReshapeState × Flow Row
  | state, [] => (state, { items := [], failure := none })
  | state, row :: rows =>
    match reshapeRow options state row with
    | .error error => (state, { items := [], failure := some error })
    | .ok (next, pushed) =>
      let (final, flow) := reshapeRows options next rows
      (final, { flow with items := pushed.toList ++ flow.items })

/-- The stage: an error of its own comes first, then the one that the parser ends with. -/
def reshape (options : TransformOptions) (rows : Flow Row) : ReshapeState × Flow Row :=
  let (final, flow) := reshapeRows options {} rows.items
  (final, { flow with failure := flow.failure.or rows.failure })

/-! ### The job -/

/-- The lines of the written file, and the details that the job reports. -/
structure TransformResult where
  file : List (List String)
  rowsIn : ℕ
  rowsOut : ℕ
  rowsDropped : ℕ
  columns : List String
  deriving DecidableEq

/-- What the job fails with when a stage does. -/
def asInvalidCsv : JobError → JobError
  | .invalidCsv reason => .invalidCsv reason
  | .thrown _ => .invalidCsv "unparseable"
  | error => .invalidCsv error.message

def parseOptions (options : TransformOptions) : ParseOptions where
  columns := options.hasHeader
  trim := options.trim
  skipEmptyLines := true
  relaxColumnCount := false

/-- `options.columns.length > 0 ? options.columns : undefined` -/
def listedColumns (options : TransformOptions) : Option (List String) :=
  if 0 < options.columns.length then some options.columns else none

/-- The result of a job whose stages all end. -/
def resultOf (final : ReshapeState) (file : List (List String)) : TransformResult where
  file := file
  rowsIn := final.seen
  rowsOut := final.kept
  rowsDropped := final.dropped
  columns := final.selectedColumns

/-- `transformCsv`, from the records of the source to the lines of the file. A row that the
stringifier cannot write stops the job before the stages in front of it come to their end. The
storage is left out, with the key and the size that it answers with. -/
def transformCsv (parser : Parser) (stringifier : Stringifier) (options : TransformOptions)
    (records : List Record) : Except JobError TransformResult :=
  let (final, flow) := reshape options (parser.parse (parseOptions options) records)
  match stringifier.write options.hasHeader (listedColumns options) flow.items, flow.failure with
  | .error message, _ => .error (asInvalidCsv (.error message))
  | .ok _, some error => .error (asInvalidCsv error)
  | .ok file, none => .ok (resultOf final file)

/-! ### One row -/

/-- The state after a row under a selection. -/
def ReshapeState.after (options : TransformOptions) (selected : List String)
    (state : ReshapeState) (row : JsObject String) : ReshapeState where
  seen := state.seen + 1
  kept := if keepsObject options selected row then state.kept + 1 else state.kept
  dropped := if keepsObject options selected row then state.dropped else state.dropped + 1
  selectedColumns := selected

/-- Assumes: the limit is not reached, the keys of the row settle on a selection, and the state has
this selection or none. -/
theorem reshapeRow_object {options : TransformOptions} {state : ReshapeState}
    {row : JsObject String} {selected : List String} (hlimit : state.seen < maxRows)
    (hselect : selectColumns options row.keys = .ok selected)
    (hstate : state.selectedColumns = [] ∨ state.selectedColumns = selected) :
    reshapeRow options state (.object row) =
      .ok (state.after options selected row,
        if keepsObject options selected row then some (.object (outputOf options selected row))
        else none) := by
  have hchosen : selectionAt options state row.keys = .ok selected := by
    rw [selectionAt]
    by_cases hempty : state.selectedColumns.length = 0
    · rw [if_pos hempty, hselect]
    · rw [if_neg hempty]
      rcases hstate with hnil | hsame
      · exact absurd (by rw [hnil]; rfl) hempty
      · rw [hsame]
  have hseen : ¬ maxRows < state.seen + 1 := by omega
  have hsame : selectionAt options { state with seen := state.seen + 1 } row.keys =
      .ok selected := hchosen
  rw [reshapeRow, if_neg hseen]
  simp only [hsame, ReshapeState.after]
  show (if keepsObject options selected row = true then _ else _) = _
  split_ifs <;> rfl

/-- Assumes: the keys of the row settle on no selection. -/
theorem reshapeRow_refused {options : TransformOptions} {row : JsObject String} {error : JobError}
    (hselect : selectColumns options row.keys = .error error) :
    reshapeRow options {} (.object row) = .error error := by
  have hempty : ∀ state : ReshapeState, state.selectedColumns = [] →
      selectionAt options state row.keys = .error error := by
    intro state hstate
    rw [selectionAt, hstate, List.length_nil, if_pos rfl, hselect]
  rw [reshapeRow, if_neg (by decide)]
  simp only
  rw [hempty _ rfl]
  rfl

/-! ### A run -/

/-- The state after rows under a selection. -/
def ReshapeState.afterAll (options : TransformOptions) (selected : List String)
    (state : ReshapeState) (rows : List (JsObject String)) : ReshapeState :=
  rows.foldl (ReshapeState.after options selected) state

/-- Assumes: the limit is not reached, the rows have keys that settle on one selection, and the
state has this selection or none. -/
theorem reshapeRows_objects {options : TransformOptions} {selected : List String}
    (rows : List (JsObject String)) (state : ReshapeState)
    (hlimit : state.seen + rows.length ≤ maxRows)
    (hselect : ∀ row ∈ rows, selectColumns options row.keys = .ok selected)
    (hstate : state.selectedColumns = [] ∨ state.selectedColumns = selected) :
    reshapeRows options state (rows.map .object) =
      (state.afterAll options selected rows,
        { items := ((rows.filter (keepsObject options selected)).map
            (outputOf options selected)).map .object
          failure := none }) := by
  induction rows generalizing state with
  | nil => rfl
  | cons row rest ih =>
    rw [List.length_cons] at hlimit
    have hrow := @reshapeRow_object options state row selected (by omega)
      (hselect row List.mem_cons_self) hstate
    have hrest := ih (state.after options selected row)
      (by simp only [ReshapeState.after]; omega)
      (fun other hother ↦ hselect other (List.mem_cons_of_mem _ hother)) (.inr rfl)
    rw [List.map_cons, reshapeRows, hrow]
    simp only [hrest]
    by_cases hkeeps : keepsObject options selected row = true
    · simp [hkeeps, ReshapeState.afterAll]
    · simp [hkeeps, ReshapeState.afterAll]

theorem afterAll_selectedColumns (options : TransformOptions) (selected : List String)
    (state : ReshapeState) {rows : List (JsObject String)} (hrows : rows ≠ []) :
    (state.afterAll options selected rows).selectedColumns = selected := by
  induction rows using List.reverseRecOn with
  | nil => exact absurd rfl hrows
  | append_singleton rows row _ =>
    rw [ReshapeState.afterAll, List.foldl_append]
    rfl

/-! ### The document of a table -/

/-- The names of the header, as the parser reads them. -/
def namesOf (parser : Parser) (options : TransformOptions) (table : Table Cell) : List String :=
  table.header.map (parser.read options.trim)

/-- The objects that the parser makes of the rows. -/
def objectsOf (parser : Parser) (options : TransformOptions) (table : Table Cell) :
    List (JsObject String) :=
  table.rows.map fun cells ↦
    parser.rowObject (namesOf parser options table) (cells.map (parser.read options.trim))

/-- The objects that are handed on under a selection. -/
def pushedOf (parser : Parser) (options : TransformOptions) (table : Table Cell)
    (selected : List String) : List (JsObject String) :=
  ((objectsOf parser options table).filter (keepsObject options selected)).map
    (outputOf options selected)

/-- Assumes: the records without the empty lines are the lines of the table. -/
theorem parse_table (parser : Parser) {options : TransformOptions} {records : List Record}
    {table : Table Cell} (hheader : options.hasHeader = true)
    (hlines : parser.lines options.trim records = table.lines) :
    parser.parse (parseOptions options) records =
      { items := (objectsOf parser options table).map .object, failure := none } := by
  have hfits : ∀ values ∈ table.rows.map (List.map (parser.read options.trim)),
      values.length = (namesOf parser options table).length := by
    intro values hvalues
    obtain ⟨cells, hcells, rfl⟩ := List.mem_map.1 hvalues
    simpa [namesOf] using table.consistent cells hcells
  have htake : (table.rows.map (List.map (parser.read options.trim))).takeWhile
      (fun values ↦ values.length = (namesOf parser options table).length) =
        table.rows.map (List.map (parser.read options.trim)) := by
    rw [List.takeWhile_eq_self_iff]
    exact fun values hvalues ↦ decide_eq_true (hfits values hvalues)
  have hfind : (table.rows.map (List.map (parser.read options.trim))).find?
      (fun values ↦ !decide (values.length = (namesOf parser options table).length)) = none := by
    rw [List.find?_eq_none]
    intro values hvalues
    simp [hfits values hvalues]
  have hread : table.lines.map (List.map (parser.read options.trim)) =
      namesOf parser options table :: table.rows.map (List.map (parser.read options.trim)) := rfl
  simp only [Parser.parse, parseOptions, hheader, if_true, hlines, hread, Bool.false_or]
  rw [htake, hfind, objectsOf, List.map_map, List.map_map]
  rfl

theorem keys_objectsOf (parser : Parser) (options : TransformOptions) (table : Table Cell)
    {object : JsObject String} (hobject : object ∈ objectsOf parser options table) :
    object.keys = keysOf parser.creation (namesOf parser options table) := by
  obtain ⟨cells, hcells, rfl⟩ := List.mem_map.1 hobject
  have hlength : (namesOf parser options table).length ≤
      (cells.map (parser.read options.trim)).length := by
    simpa [namesOf] using (table.consistent cells hcells).symm.le
  rw [Parser.rowObject, JsObject.keys_ofEntries, List.map_fst_zip hlength]

/-- Assumes: the records without the empty lines are the lines of the table, the rows are within the
limit, and the names of the header settle on a selection. -/
theorem transformCsv_table (parser : Parser) (stringifier : Stringifier)
    {options : TransformOptions} {records : List Record} {table : Table Cell}
    {selected : List String} (hheader : options.hasHeader = true)
    (hlines : parser.lines options.trim records = table.lines)
    (hlimit : table.rows.length ≤ maxRows)
    (hselect : selectColumns options (keysOf parser.creation (namesOf parser options table)) =
      .ok selected) :
    transformCsv parser stringifier options records =
      match stringifier.write true (listedColumns options)
        ((pushedOf parser options table selected).map .object) with
      | .error message => .error (asInvalidCsv (.error message))
      | .ok file => .ok (resultOf
          (ReshapeState.afterAll options selected {} (objectsOf parser options table)) file) := by
  have hrun := @reshapeRows_objects options selected (objectsOf parser options table) {}
    (by simpa [objectsOf] using hlimit)
    (fun object hobject ↦ by rw [keys_objectsOf parser options table hobject, hselect]) (.inl rfl)
  simp only [transformCsv, parse_table parser hheader hlines, reshape, hrun, hheader]
  rw [← pushedOf]
  cases stringifier.write true (listedColumns options)
    ((pushedOf parser options table selected).map .object) <;> rfl

/-- Assumes: the records without the empty lines are the lines of the table, there is a row, and
the names of the header settle on no selection. -/
theorem transformCsv_refused (parser : Parser) (stringifier : Stringifier)
    {options : TransformOptions} {records : List Record} {table : Table Cell} {error : JobError}
    (hheader : options.hasHeader = true)
    (hlines : parser.lines options.trim records = table.lines) (hrows : table.rows ≠ [])
    (hselect : selectColumns options (keysOf parser.creation (namesOf parser options table)) =
      .error error) :
    transformCsv parser stringifier options records = .error (asInvalidCsv error) := by
  obtain ⟨first, rest, hobjects⟩ : ∃ first rest, objectsOf parser options table = first :: rest :=
    List.exists_cons_of_ne_nil (by simpa [objectsOf] using hrows)
  have hkeys : first.keys = keysOf parser.creation (namesOf parser options table) :=
    keys_objectsOf parser options table (hobjects ▸ List.mem_cons_self)
  have hfirst : reshapeRow options {} (.object first) = .error error :=
    reshapeRow_refused (hkeys ▸ hselect)
  simp only [transformCsv, parse_table parser hheader hlines, reshape, hobjects, List.map_cons,
    reshapeRows, hfirst]
  obtain ⟨lines, hwritten⟩ := stringifier.exists_write_nil options.hasHeader (listedColumns options)
  rw [hwritten]
  rfl

/-! ### Values -/

/-- The table that a document is read as, with its names as they are and its values tidied. -/
def tidied (parser : Parser) (options : TransformOptions) (table : Table Cell) : Table String :=
  table.bimap (parser.read options.trim) fun cell ↦ tidy options cell.text

theorem tidy_read (parser : Parser) (options : TransformOptions) (cell : Cell) :
    tidy options (parser.read options.trim cell) = tidy options cell.text := by
  rw [tidy, tidy]
  by_cases htrim : options.trim = true
  · rw [if_pos htrim, if_pos htrim, parser.trim_read]
  · rw [if_neg htrim, if_neg htrim, Bool.eq_false_iff.2 htrim, parser.read_false]

theorem tidy_empty (options : TransformOptions) : tidy options "" = "" := by
  rw [tidy]
  split_ifs <;> rfl

/-- Assumes: the parser makes a property of the name. -/
theorem cleaned_rowObject (parser : Parser) (options : TransformOptions) (names : List String)
    (cells : List Cell) {name : String} (hname : ¬ Swallowed parser.creation name) :
    cleaned options (parser.rowObject names (cells.map (parser.read options.trim))) name =
      (valueOf names (cells.map fun cell ↦ tidy options cell.text) name).getD "" := by
  have htidy : (cells.map fun cell ↦ tidy options cell.text) =
      (cells.map (parser.read options.trim)).map (tidy options) := by
    simp [tidy_read]
  rw [cleaned, Parser.rowObject, JsObject.get_ofEntries _ hname, htidy, valueOf_map, ← valueOf]
  cases valueOf names (cells.map (parser.read options.trim)) name with
  | none => exact tidy_empty options
  | some value => rfl

/-- What is handed on under a selected name, and nothing under `__proto__`. -/
theorem fieldOf_outputOf (options : TransformOptions) {selected : List String}
    (row : JsObject String) {name : String} (hmem : name ∈ selected) :
    fieldOf (outputOf options selected row) name =
      if name = protoName then "" else cleaned options row name := by
  rw [fieldOf, outputOf]
  split_ifs with hname
  · rw [JsObject.get_ofEntries_of_swallowed _ ⟨rfl, hname⟩, Option.getD_none]
  · rw [JsObject.get_ofEntries _ fun h ↦ hname h.2, ← List.map_reverse,
      List.lookup_graph _ (List.mem_reverse.2 hmem), Option.getD_some]

/-- The tidied rows that are kept under a selection are empty under `__proto__`. -/
def ProtoBlank (parser : Parser) (options : TransformOptions) (table : Table Cell)
    (selected : List String) : Prop :=
  ∀ values ∈ (tidied parser options table).rows,
    keepsValues options (valuesOf (namesOf parser options table) selected values) = true →
    (valueOf (namesOf parser options table) values protoName).getD "" = ""

instance (parser : Parser) (options : TransformOptions) (table : Table Cell)
    (selected : List String) : Decidable (ProtoBlank parser options table selected) :=
  inferInstanceAs (Decidable (∀ values ∈ (tidied parser options table).rows, _ → _))

/-- What is handed on is the selected columns of the tidied table, in the rows that are kept, exactly
when nothing is lost under `__proto__`. Assumes: the parser makes properties of the selected
names. -/
theorem pushed_values_iff (parser : Parser) (options : TransformOptions) (table : Table Cell)
    {selected : List String} (hselected : ∀ name ∈ selected, ¬ Swallowed parser.creation name) :
    (pushedOf parser options table selected).map (fun record ↦ selected.map (fieldOf record)) =
        (((tidied parser options table).select selected).keepRows (keepsValues options)).rows ↔
      (protoName ∈ selected → ProtoBlank parser options table selected) := by
  have hvalues : ∀ cells : List Cell,
      selected.map (cleaned options (parser.rowObject (namesOf parser options table)
        (cells.map (parser.read options.trim)))) =
      valuesOf (namesOf parser options table) selected
        (cells.map fun cell ↦ tidy options cell.text) := fun cells ↦
    List.map_congr_left fun name hmem ↦
      cleaned_rowObject parser options _ cells (hselected name hmem)
  have hpushed : (pushedOf parser options table selected).map
      (fun record ↦ selected.map (fieldOf record)) =
      (table.rows.filter fun cells ↦ keepsValues options
        (valuesOf (namesOf parser options table) selected
          (cells.map fun cell ↦ tidy options cell.text))).map fun cells ↦
        selected.map fun name ↦ if name = protoName then "" else
          (valueOf (namesOf parser options table)
            (cells.map fun cell ↦ tidy options cell.text) name).getD "" := by
    simp only [pushedOf, objectsOf, List.map_map, List.filter_map, Function.comp_def, keepsObject,
      hvalues]
    refine List.map_congr_left fun cells _ ↦ List.map_congr_left fun name hname ↦ ?_
    rw [fieldOf_outputOf options _ hname]
    split_ifs
    · rfl
    · exact cleaned_rowObject parser options _ cells (hselected name hname)
  have hasked : (((tidied parser options table).select selected).keepRows
      (keepsValues options)).rows =
      (table.rows.filter fun cells ↦ keepsValues options
        (valuesOf (namesOf parser options table) selected
          (cells.map fun cell ↦ tidy options cell.text))).map fun cells ↦
        selected.map fun name ↦ (valueOf (namesOf parser options table)
          (cells.map fun cell ↦ tidy options cell.text) name).getD "" := by
    show ((table.rows.map (List.map fun cell ↦ tidy options cell.text)).map
      (valuesOf (namesOf parser options table) selected)).filter (keepsValues options) = _
    simp only [List.map_map, List.filter_map, Function.comp_def]
    rfl
  rw [hpushed, hasked, List.map_inj_left]
  simp only [List.mem_filter, List.map_inj_left]
  constructor
  · intro hsame hproto values hrow hkeeps
    obtain ⟨cells, hcells, rfl⟩ := List.mem_map.1 hrow
    exact (hsame cells ⟨hcells, hkeeps⟩ protoName hproto).symm.trans (if_pos rfl)
  · rintro hblank cells ⟨hcells, hkeeps⟩ name hname
    split_ifs with hproto
    · subst hproto
      exact (hblank hname _ (List.mem_map_of_mem hcells) hkeeps).symm
    · rfl

end FileForge.Csv.Transform
