import FileForge.Csv.Transform

/-!
# `csv.validate`

`validateCsv` of `src/jobs/csv.ts` between the records of the source and its report. The parser
hands on every record with all of its fields, and `inspect` is one pass over them with two counters:
the number of the record, which counts the header, and the number of data rows, which does not.

`exactReport` says the figures without a pass. `inspectRow_exact` is one record,
`inspectRows_exact` a whole run: what the pass has counted after some records are the figures of
these records, and it fails at the first data row beyond the limit. `validateCsv_figures` reads the
figures of the rows off the report.
-/

set_option autoImplicit false
set_option relaxedAutoImplicit false

namespace FileForge.Csv.Validate

open Foundation Foundation.EcmaObject Jobs.Errors Streams Transform

/-! ### Options and report -/

/-- `ValidateOptionsSchema` after its defaults, without the delimiter, which the records are made
with. -/
structure ValidateOptions where
  /-- Treat the first row as headers. -/
  hasHeader : Bool := true

structure ValidationReport where
  rows : ℕ := 0
  columns : List String := []
  columnCount : ℕ := 0
  /-- Rows whose field count differs from the header's. -/
  inconsistentRows : ℕ := 0
  /-- First few inconsistent row numbers, for diagnosis. -/
  inconsistentExamples : List ℕ := []
  /-- Empty-value count per column. -/
  emptyByColumn : JsObject ℕ := .empty
  emptyRows : ℕ := 0

/-- The variables that `inspect` closes over. -/
structure InspectState where
  rowNumber : ℕ := 0
  report : ValidationReport := {}

/-! ### `inspect` -/

/-- `value.trim() === ''` -/
def isBlank (value : String) : Bool := EcmaText.trim value = ""

/-- `emptyByColumn[name] = (emptyByColumn[name] ?? 0) + 1`. The names that are counted were assigned
zero before, so that what is read is no inherited property. -/
def tally (emptyByColumn : JsObject ℕ) (name : String) : JsObject ℕ :=
  emptyByColumn.assign name ((emptyByColumn.get name).getD 0 + 1)

/-- One value of a row, with its index: whether all were empty so far, and the counts. -/
def inspectCell (columns : List String) (state : Bool × JsObject ℕ) (cell : String × ℕ) :
    Bool × JsObject ℕ :=
  let empty := isBlank cell.1
  let emptyByColumn :=
    match columns[cell.2]? with
    | some name => if empty then tally state.2 name else state.2
    | none => state.2
  (state.1 && empty, emptyByColumn)

/-- The report after the header. -/
def readHeader (report : ValidationReport) (row : List String) : ValidationReport :=
  let columns := row.map EcmaText.trim
  { report with
    columns := columns
    columnCount := row.length
    emptyByColumn := columns.foldl (fun object name ↦ object.assign name 0)
      report.emptyByColumn }

/-- The report after a data row. -/
def countRow (rowNumber : ℕ) (report : ValidationReport) (row : List String) : ValidationReport :=
  let columnCount := if report.columnCount = 0 then row.length else report.columnCount
  let inconsistent := row.length ≠ columnCount
  let inspected := row.zipIdx.foldl (inspectCell report.columns) (true, report.emptyByColumn)
  { report with
    rows := report.rows + 1
    columnCount := columnCount
    inconsistentRows :=
      if inconsistent then report.inconsistentRows + 1 else report.inconsistentRows
    inconsistentExamples :=
      if inconsistent ∧ report.inconsistentExamples.length < 5 then
        report.inconsistentExamples ++ [rowNumber]
      else report.inconsistentExamples
    emptyByColumn := inspected.2
    emptyRows := if inspected.1 then report.emptyRows + 1 else report.emptyRows }

/-- One record through `inspect`. Reports of progress are left out. -/
def inspectRow (options : ValidateOptions) (state : InspectState) (row : List String) :
    Except JobError InspectState :=
  let rowNumber := state.rowNumber + 1
  if rowNumber = 1 ∧ options.hasHeader then
    .ok { rowNumber := rowNumber, report := readHeader state.report row }
  else if maxRows < state.report.rows + 1 then
    .error (.invalidCsv ("more than " ++ toString maxRows ++ " rows"))
  else .ok { rowNumber := rowNumber, report := countRow rowNumber state.report row }

/-- The records one after the other, up to the first that fails. -/
def inspectRows (options : ValidateOptions) (rows : List (List String)) :
    Except JobError InspectState :=
  rows.foldlM (inspectRow options) {}

/-! ### The job -/

/-- The stored report, and the details that the job answers with. -/
structure ValidateResult where
  report : ValidationReport
  rows : ℕ
  columns : ℕ
  inconsistentRows : ℕ
  emptyRows : ℕ

def parseOptions : ParseOptions where
  columns := false
  trim := false
  skipEmptyLines := false
  relaxColumnCount := true

/-- The fields of a row. Without `columns` the parser makes no objects. -/
def fieldsOf : Row → List String
  | .fields values => values
  | .object object => object.keys.map (fieldOf object)

/-- `validateCsv`, from the records of the source to its report. The storage is left out. -/
def validateCsv (parser : Parser) (options : ValidateOptions) (records : List Record) :
    Except JobError ValidateResult :=
  let rows := parser.parse parseOptions records
  match inspectRows options (rows.items.map fieldsOf), rows.failure with
  | .error error, _ => .error (asInvalidCsv error)
  | .ok _, some error => .error (asInvalidCsv error)
  | .ok final, none => .ok
    { report := final.report
      rows := final.report.rows
      columns := final.report.columnCount
      inconsistentRows := final.report.inconsistentRows
      emptyRows := final.report.emptyRows }

/-! ### The figures -/

/-- The records as their texts. -/
def textsOf (records : List Record) : List (List String) := records.map (List.map Cell.text)

/-- All records but the header. -/
def dataRows (options : ValidateOptions) (rows : List (List String)) : List (List String) :=
  rows.drop (if options.hasHeader then 1 else 0)

def firstLength (rows : List (List String)) : ℕ := (rows.headD []).length

/-- The positions of the data rows that are not as long as the first record. Positions count from
one, and they count the header. -/
def inconsistentPositions (options : ValidateOptions) (rows : List (List String)) : List ℕ :=
  (((rows.zipIdx 1).drop (if options.hasHeader then 1 else 0)).filter
    fun entry ↦ entry.1.length ≠ firstLength rows).map Prod.snd

def columnsOf (options : ValidateOptions) (rows : List (List String)) : List String :=
  if options.hasHeader then (rows.headD []).map EcmaText.trim else []

/-- The names of the columns in which a row has a blank value. -/
def blankNames (columns row : List String) : List String :=
  ((columns.zip row).filter fun entry ↦ isBlank entry.2).map Prod.fst

/-- The counts before the first data row. -/
def zeros (columns : List String) : JsObject ℕ :=
  columns.foldl (fun object name ↦ object.assign name 0) .empty

/-- The report on some records. -/
def exactReport (options : ValidateOptions) (rows : List (List String)) : ValidationReport where
  rows := (dataRows options rows).length
  columns := columnsOf options rows
  columnCount := firstLength rows
  inconsistentRows := (dataRows options rows).countP fun row ↦ row.length ≠ firstLength rows
  inconsistentExamples := (inconsistentPositions options rows).take 5
  emptyByColumn := ((dataRows options rows).flatMap (blankNames (columnsOf options rows))).foldl
    tally (zeros (columnsOf options rows))
  emptyRows := (dataRows options rows).countP fun row ↦ row.all isBlank

def exactState (options : ValidateOptions) (rows : List (List String)) : InspectState where
  rowNumber := rows.length
  report := exactReport options rows

/-! ### One record -/

theorem foldl_inspectCell (columns row : List String) (index : ℕ) (state : Bool × JsObject ℕ) :
    (row.zipIdx index).foldl (inspectCell columns) state =
      (state.1 && row.all isBlank,
        (blankNames (columns.drop index) row).foldl tally state.2) := by
  induction row generalizing index state with
  | nil => simp [blankNames]
  | cons value rest ih =>
    rw [List.zipIdx_cons, List.foldl_cons, ih]
    refine Prod.ext ?_ ?_
    · simp [inspectCell, Bool.and_assoc]
    · cases hname : columns[index]? with
      | none =>
        have hlength := List.getElem?_eq_none_iff.1 hname
        have hnext : columns.drop (index + 1) = [] := List.drop_eq_nil_of_le (by omega)
        simp [inspectCell, hname, blankNames, List.drop_eq_nil_of_le hlength, hnext]
      | some name =>
        obtain ⟨hlength, hvalue⟩ := List.getElem?_eq_some_iff.1 hname
        have hdrop : columns.drop index = name :: columns.drop (index + 1) := by
          rw [← hvalue]
          exact List.drop_eq_getElem_cons hlength
        by_cases hblank : isBlank value = true
        · simp [inspectCell, hname, hblank, blankNames, hdrop]
        · simp [inspectCell, hname, hblank, blankNames, hdrop]

/-- A list that is cut at a length takes another element while it is shorter. -/
theorem take_push {α : Type} (items : List α) (item : α) (limit : ℕ) :
    (if (items.take limit).length < limit then items.take limit ++ [item] else items.take limit) =
      (items ++ [item]).take limit := by
  rw [List.length_take]
  by_cases hshort : items.length < limit
  · rw [if_pos (by omega), List.take_of_length_le hshort.le, List.take_of_length_le (by simpa)]
  · rw [if_neg (by omega), List.take_append_of_le_length (by omega)]

theorem firstLength_append {rows : List (List String)} (hrows : rows ≠ []) (row : List String) :
    firstLength (rows ++ [row]) = firstLength rows := by
  cases rows with
  | nil => exact absurd rfl hrows
  | cons first rest => rfl

theorem columnsOf_append (options : ValidateOptions) {rows : List (List String)}
    (hrows : rows ≠ []) (row : List String) :
    columnsOf options (rows ++ [row]) = columnsOf options rows := by
  cases rows with
  | nil => exact absurd rfl hrows
  | cons first rest => rfl

/-- Assumes: the row is no header. -/
theorem dataRows_append {options : ValidateOptions} {rows : List (List String)}
    (hdata : rows ≠ [] ∨ options.hasHeader = false) (row : List String) :
    dataRows options (rows ++ [row]) = dataRows options rows ++ [row] := by
  rw [dataRows, dataRows]
  apply List.drop_append_of_le_length
  rcases hdata with hrows | hheader
  · have hpos := List.length_pos_iff.2 hrows
    split_ifs <;> omega
  · simp [hheader]

/-- Assumes: the row is no header. -/
theorem inconsistentPositions_append {options : ValidateOptions} {rows : List (List String)}
    (hdata : rows ≠ [] ∨ options.hasHeader = false) (row : List String) :
    inconsistentPositions options (rows ++ [row]) =
      inconsistentPositions options rows ++
        if row.length ≠ firstLength (rows ++ [row]) then [rows.length + 1] else [] := by
  by_cases hrows : rows = []
  · have hheader : options.hasHeader = false := hdata.resolve_left fun h ↦ h hrows
    subst hrows
    simp [inconsistentPositions, hheader, firstLength]
  · have hdrop : (if options.hasHeader = true then 1 else 0) ≤ (rows.zipIdx 1).length := by
      have hpos := List.length_pos_iff.2 hrows
      rw [List.length_zipIdx]
      split_ifs <;> omega
    simp only [inconsistentPositions, List.zipIdx_append, List.drop_append_of_le_length hdrop,
      List.filter_append, List.map_append, firstLength_append hrows]
    by_cases hlength : row.length = firstLength rows
    · simp [hlength]
    · simp [hlength, Nat.add_comm]

theorem dataRows_header {options : ValidateOptions} (hheader : options.hasHeader = true)
    (header : List String) (rows : List (List String)) :
    dataRows options (header :: rows) = rows := by
  simp [dataRows, hheader]

theorem readHeader_exact {options : ValidateOptions} (hheader : options.hasHeader = true)
    (row : List String) : readHeader {} row = exactReport options [row] := by
  simp [readHeader, exactReport, dataRows, columnsOf, firstLength, inconsistentPositions, zeros,
    hheader]

/-- Assumes: the row is no header, and the records are not empty. -/
theorem countRow_exact {options : ValidateOptions} {rows : List (List String)}
    {row : List String} (hdata : rows ≠ [] ∨ options.hasHeader = false)
    (hfields : ∀ other ∈ rows ++ [row], other ≠ []) :
    countRow (rows.length + 1) (exactReport options rows) row =
      exactReport options (rows ++ [row]) := by
  have hcount : (if firstLength rows = 0 then row.length else firstLength rows) =
      firstLength (rows ++ [row]) := by
    cases rows with
    | nil => rfl
    | cons first rest =>
      have hfirst : 0 < first.length :=
        List.length_pos_iff.2 (hfields first (by simp))
      exact if_neg hfirst.ne'
  have hcolumns : columnsOf options (rows ++ [row]) = columnsOf options rows := by
    by_cases hrows : rows = []
    · have hheader : options.hasHeader = false := hdata.resolve_left fun h ↦ h hrows
      simp [columnsOf, hheader]
    · exact columnsOf_append options hrows row
  have hlengths : (dataRows options rows).countP (fun other ↦ other.length ≠ firstLength rows) =
      (dataRows options rows).countP
        (fun other ↦ other.length ≠ firstLength (rows ++ [row])) := by
    by_cases hrows : rows = []
    · simp [hrows, dataRows]
    · rw [firstLength_append hrows]
  have hexamples := take_push (inconsistentPositions options rows) (rows.length + 1) 5
  rw [countRow, exactReport, exactReport]
  simp only [hcount, hcolumns, foldl_inspectCell, List.drop_zero, dataRows_append hdata,
    inconsistentPositions_append hdata, List.length_append, List.length_singleton,
    List.countP_append, List.countP_singleton, List.flatMap_append, List.flatMap_singleton,
    List.foldl_append, hlengths, Bool.true_and]
  congr 1
  · by_cases hlength : row.length = firstLength (rows ++ [row])
    · simp [hlength]
    · simp [hlength]
  · by_cases hlength : row.length = firstLength (rows ++ [row])
    · simp [hlength]
    · simpa [hlength] using hexamples
  · by_cases hblank : row.all isBlank = true
    · simp [hblank]
    · simp [hblank]

/-- One record more. Assumes: the records are not empty. -/
theorem inspectRow_exact (options : ValidateOptions) {rows : List (List String)}
    {row : List String} (hfields : ∀ other ∈ rows ++ [row], other ≠ []) :
    inspectRow options (exactState options rows) row =
      if maxRows < (dataRows options (rows ++ [row])).length then
        .error (.invalidCsv ("more than " ++ toString maxRows ++ " rows"))
      else .ok (exactState options (rows ++ [row])) := by
  by_cases hfirst : rows = [] ∧ options.hasHeader = true
  · obtain ⟨rfl, hheader⟩ := hfirst
    have hempty : exactReport options [] = {} := by
      simp [exactReport, dataRows, columnsOf, firstLength, inconsistentPositions, zeros]
    rw [List.nil_append, dataRows_header hheader, if_neg (by simp), inspectRow]
    simp only [exactState, List.length_nil, hempty, Nat.zero_add, hheader, and_self, if_true,
      readHeader_exact hheader, List.length_singleton]
  · have hdata : rows ≠ [] ∨ options.hasHeader = false := by
      by_cases hrows : rows = []
      · exact .inr (Bool.eq_false_iff.2 fun h ↦ hfirst ⟨hrows, h⟩)
      · exact .inl hrows
    have hnumber : ¬ (rows.length + 1 = 1 ∧ options.hasHeader = true) := fun h ↦
      hfirst ⟨List.length_eq_zero_iff.1 (by omega), h.2⟩
    rw [inspectRow]
    simp only [exactState, hnumber, if_false, countRow_exact hdata hfields,
      dataRows_append hdata, List.length_append, List.length_singleton]
    rfl

/-! ### A run -/

/-- Assumes: the records are not empty. -/
theorem inspectRows_exact (options : ValidateOptions) {rows : List (List String)}
    (hfields : ∀ row ∈ rows, row ≠ []) :
    inspectRows options rows =
      if maxRows < (dataRows options rows).length then
        .error (.invalidCsv ("more than " ++ toString maxRows ++ " rows"))
      else .ok (exactState options rows) := by
  induction rows using List.reverseRecOn with
  | nil => simp [inspectRows, exactState, exactReport, dataRows, columnsOf, firstLength,
      inconsistentPositions, zeros, pure, Except.pure]
  | append_singleton rows row ih =>
    have hrun := ih fun other hother ↦ hfields other (List.mem_append_left _ hother)
    have hmore : (dataRows options rows).length ≤ (dataRows options (rows ++ [row])).length := by
      simp only [dataRows, List.length_drop, List.length_append]
      omega
    rw [inspectRows] at hrun ⊢
    rw [List.foldlM_append, hrun]
    by_cases hlimit : maxRows < (dataRows options rows).length
    · rw [if_pos hlimit, if_pos (by omega)]
      rfl
    · rw [if_neg hlimit]
      show List.foldlM (inspectRow options) (exactState options rows) [row] = _
      rw [List.foldlM_cons, inspectRow_exact options hfields]
      split_ifs <;> rfl

theorem parse_texts (parser : Parser) (records : List Record) :
    parser.parse parseOptions records =
      { items := (textsOf records).map .fields, failure := none } := by
  have hread : records.map (List.map (parser.read false)) = textsOf records := by
    simp [textsOf, parser.read_false]
  simp only [Parser.parse, parseOptions, Bool.false_eq_true, if_false, Bool.true_or, Bool.not_true,
    hread]
  cases textsOf records with
  | nil => rfl
  | cons first rest =>
    have htake : rest.takeWhile (fun _ ↦ true) = rest := List.takeWhile_eq_self_iff.2 (by simp)
    simp [htake]

theorem textsOf_ne_nil {records : List Record} (hrecords : ∀ record ∈ records, record ≠ []) :
    ∀ row ∈ textsOf records, row ≠ [] := by
  intro row hrow
  obtain ⟨record, hrecord, rfl⟩ := List.mem_map.1 hrow
  simpa using hrecords record hrecord

/-- The whole job. Assumes: the records are not empty. -/
theorem validateCsv_exact (parser : Parser) (options : ValidateOptions) {records : List Record}
    (hrecords : ∀ record ∈ records, record ≠ []) :
    validateCsv parser options records =
      if maxRows < (dataRows options (textsOf records)).length then
        .error (.invalidCsv ("more than " ++ toString maxRows ++ " rows"))
      else
        let report := exactReport options (textsOf records)
        .ok
          { report := report
            rows := report.rows
            columns := report.columnCount
            inconsistentRows := report.inconsistentRows
            emptyRows := report.emptyRows } := by
  have hitems : ((textsOf records).map Row.fields).map fieldsOf = textsOf records := by
    rw [List.map_map]
    exact List.map_id (textsOf records)
  simp only [validateCsv, parse_texts, hitems, inspectRows_exact options (textsOf_ne_nil hrecords)]
  split_ifs <;> rfl

/-! ### The figures of the rows -/

theorem inconsistentPositions_pairwise (options : ValidateOptions) (rows : List (List String)) :
    (inconsistentPositions options rows).Pairwise fun first second ↦ first < second := by
  have hpositions : ((rows.zipIdx 1).map Prod.snd).Pairwise fun first second ↦ first < second := by
    rw [List.zipIdx_map_snd]
    exact List.pairwise_lt_range'
  refine hpositions.sublist (List.Sublist.map _ ?_)
  exact List.filter_sublist.trans (List.drop_sublist _ _)

theorem length_inconsistentPositions (options : ValidateOptions) (rows : List (List String)) :
    (inconsistentPositions options rows).length =
      (dataRows options rows).countP fun row ↦ row.length ≠ firstLength rows := by
  have htexts : ((rows.zipIdx 1).drop (if options.hasHeader then 1 else 0)).map Prod.fst =
      dataRows options rows := by
    rw [List.map_drop, List.zipIdx_map_fst, dataRows]
  rw [inconsistentPositions, List.length_map, ← List.countP_eq_length_filter, ← htexts,
    List.countP_map]
  rfl

/-- The job fails exactly when there are more data rows than the limit, and otherwise each figure of
the report is the number that it is named for, the examples are the first five positions in
ascending order, and the details are these figures. Assumes: a record is never empty. -/
theorem validateCsv_figures (parser : Parser) (options : ValidateOptions) (records : List Record)
    (hrecords : ∀ record ∈ records, record ≠ []) :
    ((∃ error, validateCsv parser options records = .error error) ↔
      maxRows < (dataRows options (textsOf records)).length) ∧
    ∀ result, validateCsv parser options records = .ok result →
      result.report.rows = (dataRows options (textsOf records)).length ∧
      result.report.columnCount = firstLength (textsOf records) ∧
      result.report.inconsistentRows = ((dataRows options (textsOf records)).countP
        fun row ↦ row.length ≠ firstLength (textsOf records)) ∧
      result.report.inconsistentExamples =
        (inconsistentPositions options (textsOf records)).take
          (min 5 result.report.inconsistentRows) ∧
      (result.report.inconsistentExamples.Pairwise fun first second ↦ first < second) ∧
      result.report.emptyRows = ((dataRows options (textsOf records)).countP
        fun row ↦ row.all isBlank) ∧
      result.rows = result.report.rows ∧ result.columns = result.report.columnCount ∧
      result.inconsistentRows = result.report.inconsistentRows ∧
      result.emptyRows = result.report.emptyRows := by
  rw [validateCsv_exact parser options hrecords]
  by_cases hlimit : maxRows < (dataRows options (textsOf records)).length
  · rw [if_pos hlimit]
    refine ⟨⟨fun _ ↦ hlimit, fun _ ↦ ⟨_, rfl⟩⟩, ?_⟩
    intro result hresult
    cases hresult
  · rw [if_neg hlimit]
    refine ⟨⟨?_, fun h ↦ absurd h hlimit⟩, ?_⟩
    · rintro ⟨error, herror⟩
      cases herror
    · intro result hresult
      cases hresult
      refine ⟨rfl, rfl, rfl, ?_, ?_, rfl, rfl, rfl, rfl, rfl⟩
      · show (inconsistentPositions options (textsOf records)).take 5 = _
        rw [exactReport, ← length_inconsistentPositions, ← List.take_eq_take_min]
      · exact (inconsistentPositions_pairwise options _).sublist (List.take_sublist _ _)

/-- A header, a row of its length and a short one. -/
def ragged : List Record :=
  [[⟨"city", false⟩, ⟨"temp", false⟩], [⟨"Ankara", false⟩, ⟨"21", false⟩], [⟨" ", false⟩]]

theorem validateCsv_figures_ragged :
    ∃ result, validateCsv .plain {} ragged = .ok result ∧ result.report.rows = 2 ∧
      result.report.inconsistentExamples = [3] ∧ result.report.emptyRows = 1 := by
  obtain ⟨hfails, hfigures⟩ := validateCsv_figures .plain {} ragged (by decide)
  cases hrun : validateCsv .plain {} ragged with
  | error error => exact absurd (hfails.1 ⟨error, hrun⟩) (by decide)
  | ok result =>
    obtain ⟨hrows, -, hinconsistent, hexamples, -, hempty, -⟩ := hfigures result hrun
    refine ⟨result, rfl, hrows, ?_, ?_⟩
    · rw [hexamples, hinconsistent]
      decide
    · rw [hempty]
      decide

end FileForge.Csv.Validate
