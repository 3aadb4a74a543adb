import FileForge.Csv.Accounting

/-!
# Rewriting without a header

With `hasHeader` off `reshape` hands a row on before it looks at it, while the stringifier is set up
from the same options as ever. `LosesNothing` is what a rewriting without names to select by would
be: all records with all of their fields, trimmed when values are to be trimmed, without those that
are empty when these are to be dropped, and the requested columns change nothing.

`losesNothing_iff` says when the job does that, which is when nothing is left to be done: no record
is longer than the list of columns, the parser has trimmed all that there is to trim, and no record
is empty if such are to be dropped.
-/

set_option autoImplicit false
set_option relaxedAutoImplicit false

namespace FileForge.Csv.Headerless

open Foundation Foundation.EcmaObject Foundation.Tables Jobs.Errors Streams Transform Accounting

/-- Without a list of columns records of fields are written as they are. -/
theorem write_fields (stringifier : Stringifier) (rows : List (List String)) :
    stringifier.write false none (rows.map .fields) = .ok rows := by
  have hbare : (rows.map Row.fields).mapM stringifier.writeBare = .ok rows := by
    rw [List.mapM_map]
    exact (mapM_of_forall fun _ _ ↦ rfl).trans (congrArg _ (List.map_id rows))
  cases rows with
  | nil => rfl
  | cons first rest => exact hbare

/-- Under a list of columns records of fields are written up to its length. -/
theorem write_fields_listed (stringifier : Stringifier) (columns : List String)
    (rows : List (List String)) :
    stringifier.write false (some columns) (rows.map .fields) =
      .ok (rows.map (List.take columns.length)) := by
  have hrows : (rows.map Row.fields).mapM (stringifier.writeRow columns) =
      .ok (rows.map (List.take columns.length)) := by
    rw [List.mapM_map]
    exact mapM_of_forall fun _ _ ↦ rfl
  exact congrArg (Except.map _) hrows

/-! ### The run -/

/-- Assumes: the limit is not reached. -/
theorem reshapeRows_fields (options : TransformOptions) (rows : List (List String))
    (state : ReshapeState) (hlimit : state.seen + rows.length ≤ maxRows) :
    reshapeRows options state (rows.map .fields) =
      ({ state with seen := state.seen + rows.length, kept := state.kept + rows.length },
        { items := rows.map .fields, failure := none }) := by
  induction rows generalizing state with
  | nil => rfl
  | cons row rest ih =>
    rw [List.length_cons] at hlimit
    have hrow : reshapeRow options state (.fields row) =
        .ok ({ state with seen := state.seen + 1, kept := state.kept + 1 },
          some (.fields row)) := by
      rw [reshapeRow, if_neg (by simp only; omega)]
    have hrest := ih { state with seen := state.seen + 1, kept := state.kept + 1 }
      (by simp only; omega)
    rw [List.map_cons, reshapeRows, hrow]
    simp only [hrest, List.length_cons, Option.toList_some, List.singleton_append]
    congr 2 <;> omega

/-- The lines of a document, as the parser hands them on. -/
def readLines (parser : Parser) (options : TransformOptions) (records : List Record) :
    List (List String) :=
  (parser.lines options.trim records).map (List.map (parser.read options.trim))

/-- The lines of a document have one length. -/
def OneLength (lines : List Record) : Prop :=
  ∀ line ∈ lines, ∀ other ∈ lines, line.length = other.length

instance (lines : List Record) : Decidable (OneLength lines) :=
  inferInstanceAs (Decidable (∀ line ∈ lines, ∀ other ∈ lines, line.length = other.length))

/-- Assumes: the document has no header, and its lines have one length. -/
theorem parse_lines (parser : Parser) {options : TransformOptions} {records : List Record}
    (hheader : options.hasHeader = false)
    (hlength : OneLength (parser.lines options.trim records)) :
    parser.parse (parseOptions options) records =
      { items := (readLines parser options records).map .fields, failure := none } := by
  simp only [Parser.parse, parseOptions, hheader, if_true, readLines]
  cases hlines : parser.lines options.trim records with
  | nil => rfl
  | cons first rest =>
    have hfits : ∀ values ∈ rest.map (List.map (parser.read options.trim)),
        values.length = (first.map (parser.read options.trim)).length := by
      intro values hvalues
      obtain ⟨line, hline, rfl⟩ := List.mem_map.1 hvalues
      rw [List.length_map, List.length_map]
      exact hlength line (hlines ▸ List.mem_cons_of_mem first hline) first
        (hlines ▸ List.mem_cons_self)
    have htake : (rest.map (List.map (parser.read options.trim))).takeWhile
        (fun values ↦ values.length = (first.map (parser.read options.trim)).length) =
          rest.map (List.map (parser.read options.trim)) :=
      List.takeWhile_eq_self_iff.2 fun values hvalues ↦ decide_eq_true (hfits values hvalues)
    have hfind : (rest.map (List.map (parser.read options.trim))).find? (fun values ↦
        !decide (values.length = (first.map (parser.read options.trim)).length)) = none := by
      rw [List.find?_eq_none]
      intro values hvalues
      simp [hfits values hvalues]
    simp only [List.map_cons, Bool.false_or, htake, hfind, Bool.false_eq_true, if_false]
    rfl

/-- What the stringifier writes of a line that the parser has read. -/
def writtenLine (parser : Parser) (options : TransformOptions) (line : Record) : List String :=
  let values := line.map (parser.read options.trim)
  if options.columns = [] then values else values.take options.columns.length

theorem write_readLines (parser : Parser) (stringifier : Stringifier)
    (options : TransformOptions) (records : List Record) :
    stringifier.write false (listedColumns options)
        ((readLines parser options records).map .fields) =
      .ok ((parser.lines options.trim records).map (writtenLine parser options)) := by
  by_cases hcolumns : options.columns = []
  · have hlisted : listedColumns options = none := by simp [listedColumns, hcolumns]
    rw [hlisted, write_fields, readLines]
    simp [writtenLine, hcolumns]
  · have hlisted : listedColumns options = some options.columns :=
      if_pos (List.length_pos_iff.2 hcolumns)
    rw [hlisted, write_fields_listed, readLines, List.map_map]
    simp [writtenLine, hcolumns, Function.comp_def]

/-- Assumes: the document has no header, and its lines have one length and are within the limit. -/
theorem transformCsv_lines (parser : Parser) (stringifier : Stringifier)
    {options : TransformOptions} {records : List Record} (hheader : options.hasHeader = false)
    (hlength : OneLength (parser.lines options.trim records))
    (hlimit : (parser.lines options.trim records).length ≤ maxRows) :
    transformCsv parser stringifier options records = .ok
      { file := (parser.lines options.trim records).map (writtenLine parser options)
        rowsIn := (readLines parser options records).length
        rowsOut := (readLines parser options records).length
        rowsDropped := 0
        columns := [] } := by
  have hread : (readLines parser options records).length ≤ maxRows := by
    simpa [readLines] using hlimit
  have hrun := reshapeRows_fields options (readLines parser options records) {}
    ((Nat.zero_add _).trans_le hread)
  simp only [transformCsv, reshape, parse_lines parser hheader hlength, hrun, hheader,
    write_readLines, Option.or_none, resultOf, Nat.zero_add]

/-! ### What is lost -/

/-- The values of a line as they are to be written. -/
def tidiedLine (options : TransformOptions) (line : Record) : List String :=
  line.map fun cell ↦ tidy options cell.text

/-- The job completes, and the file is the tidied lines but for those that are to be dropped, which
are counted. -/
def LosesNothing (parser : Parser) (stringifier : Stringifier) (options : TransformOptions)
    (records : List Record) : Prop :=
  let tidied := (parser.lines options.trim records).map (tidiedLine options)
  ∃ result, transformCsv parser stringifier options records = .ok result ∧
    result.file = tidied.filter (keepsValues options) ∧
    result.rowsDropped = tidied.countP fun values ↦ !keepsValues options values

/-- The stringifier writes the whole line, the parser has trimmed all of it, and it is not to be
dropped. -/
structure WrittenWhole (parser : Parser) (options : TransformOptions) (line : Record) : Prop where
  fits : options.columns = [] ∨ line.length ≤ options.columns.length
  trimmed : ∀ cell ∈ line, parser.read options.trim cell = tidy options cell.text
  filled : options.dropEmptyRows = true → ∃ cell ∈ line, tidy options cell.text ≠ ""

theorem keepsValues_tidiedLine_iff (options : TransformOptions) (line : Record) :
    keepsValues options (tidiedLine options line) = true ↔
      (options.dropEmptyRows = true → ∃ cell ∈ line, tidy options cell.text ≠ "") := by
  cases hdrop : options.dropEmptyRows with
  | false => simp [keepsValues, hdrop]
  | true => simp [keepsValues, tidiedLine, hdrop]

theorem writtenLine_eq_iff (parser : Parser) (options : TransformOptions) (line : Record) :
    writtenLine parser options line = tidiedLine options line ↔
      (options.columns = [] ∨ line.length ≤ options.columns.length) ∧
      ∀ cell ∈ line, parser.read options.trim cell = tidy options cell.text := by
  have hread : line.map (parser.read options.trim) = tidiedLine options line ↔
      ∀ cell ∈ line, parser.read options.trim cell = tidy options cell.text :=
    List.map_inj_left
  by_cases hcolumns : options.columns = []
  · have hwritten : writtenLine parser options line = line.map (parser.read options.trim) :=
      if_pos hcolumns
    simp only [hwritten, hread, hcolumns, true_or, true_and]
  · have hwritten : writtenLine parser options line =
        (line.map (parser.read options.trim)).take options.columns.length := if_neg hcolumns
    rw [hwritten]
    simp only [hcolumns, false_or]
    constructor
    · intro hsame
      have hlengths := congrArg List.length hsame
      rw [List.length_take, List.length_map, tidiedLine, List.length_map] at hlengths
      have hfits : line.length ≤ options.columns.length := by omega
      refine ⟨hfits, hread.1 ?_⟩
      rwa [List.take_of_length_le (by simpa using hfits)] at hsame
    · rintro ⟨hfits, htrimmed⟩
      rw [List.take_of_length_le (by simpa using hfits)]
      exact hread.2 htrimmed

/-- Nothing is lost exactly when the lines are within the limit and there is nothing to do about any
of them. Assumes: the document has no header, and its lines have one length. -/
theorem losesNothing_iff (parser : Parser) (stringifier : Stringifier)
    {options : TransformOptions} {records : List Record} (hheader : options.hasHeader = false)
    (hlength : OneLength (parser.lines options.trim records)) :
    LosesNothing parser stringifier options records ↔
      (parser.lines options.trim records).length ≤ maxRows ∧
      ∀ line ∈ parser.lines options.trim records, WrittenWhole parser options line := by
  by_cases hlimit : (parser.lines options.trim records).length ≤ maxRows
  · have hrun := transformCsv_lines parser stringifier hheader hlength hlimit
    constructor
    · rintro ⟨result, hresult, hfile, hdropped⟩
      rw [hrun] at hresult
      obtain rfl := Except.ok.inj hresult
      have hkeeps : ∀ line ∈ parser.lines options.trim records,
          keepsValues options (tidiedLine options line) = true := by
        intro line hline
        have hnone := List.countP_eq_zero.1 hdropped.symm (tidiedLine options line)
          (List.mem_map_of_mem hline)
        simpa using hnone
      have hwhole : (parser.lines options.trim records).map (writtenLine parser options) =
          (parser.lines options.trim records).map (tidiedLine options) := by
        refine hfile.trans (List.filter_eq_self.2 ?_)
        intro values hvalues
        obtain ⟨line, hline, rfl⟩ := List.mem_map.1 hvalues
        exact hkeeps line hline
      refine ⟨hlimit, fun line hline ↦ ?_⟩
      obtain ⟨hfits, htrimmed⟩ :=
        (writtenLine_eq_iff parser options line).1 (List.map_inj_left.1 hwhole line hline)
      exact ⟨hfits, htrimmed, (keepsValues_tidiedLine_iff options line).1 (hkeeps line hline)⟩
    · rintro ⟨-, hwhole⟩
      have hkeeps : ∀ values ∈ (parser.lines options.trim records).map (tidiedLine options),
          keepsValues options values = true := by
        intro values hvalues
        obtain ⟨line, hline, rfl⟩ := List.mem_map.1 hvalues
        exact (keepsValues_tidiedLine_iff options line).2 (hwhole line hline).filled
      refine ⟨_, hrun, ?_, ?_⟩
      · rw [List.filter_eq_self.2 hkeeps]
        exact List.map_congr_left fun line hline ↦
          (writtenLine_eq_iff parser options line).2
            ⟨(hwhole line hline).fits, (hwhole line hline).trimmed⟩
      · refine (List.countP_eq_zero.2 ?_).symm
        intro values hvalues
        simp [hkeeps values hvalues]
  · constructor
    · rintro ⟨result, hresult, -⟩
      have hread : ((readLines parser options records).map Row.fields).length =
          (parser.lines options.trim records).length := by
        simp [readLines]
      obtain ⟨error, herror⟩ := reshapeRows_beyond options
        ((readLines parser options records).map .fields) {} (Nat.zero_le _)
        (by rw [hread]; exact (not_le.1 hlimit).trans_eq (Nat.zero_add _).symm)
      simp only [transformCsv, reshape, parse_lines parser hheader hlength, herror,
        Option.some_or] at hresult
      split at hresult
      · cases hresult
      · cases hresult
      · next hfailure => cases hfailure
    · exact fun h ↦ absurd h.1 hlimit

/-- Two fields, one of them with white space in front. -/
def unnamed : List Record := [[⟨"Ankara", false⟩, ⟨" 21", false⟩]]

theorem losesNothing_unnamed :
    LosesNothing .plain .plain { hasHeader := false } unnamed := by
  refine (losesNothing_iff .plain .plain rfl (by decide)).2 ⟨by decide, ?_⟩
  intro line hline
  obtain rfl := List.mem_singleton.1 hline
  exact ⟨.inl rfl, by decide, by decide⟩

/-- A list of columns cuts the records to its length. -/
theorem not_losesNothing_columns :
    ¬ LosesNothing .plain .plain { hasHeader := false, columns := ["city"] }
      unnamed := by
  have hrun : transformCsv .plain .plain { hasHeader := false, columns := ["city"] } unnamed =
      .ok
        { file := [["Ankara"]]
          rowsIn := 1
          rowsOut := 1
          rowsDropped := 0
          columns := [] } := by
    rfl
  rintro ⟨result, hresult, hfile, -⟩
  rw [hrun] at hresult
  obtain rfl := Except.ok.inj hresult
  exact absurd hfile (by decide)

end FileForge.Csv.Headerless
