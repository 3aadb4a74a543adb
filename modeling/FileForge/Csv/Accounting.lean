import FileForge.Csv.Columns

/-!
# What becomes of every row

The details of `csv.transform` against the rows of the document. `Accounted` says by position what
`reshape` does by name: which rows are handed on, in which order, with which values, and that the
counters add up. `accounted_iff` says when a job that completes keeps to it, for a header of
distinct names that are no array indices: the counters always do, and a row that is handed on has
lost its value under `__proto__` if that name is selected. Beyond the limit on rows the job fails.

The selection is made once, at the first row, and stays (`selectedColumns_prefix`); a row object has
under each name the value of the row at the place of that name (`carries_outputOf_iff`), so that to
check the values by name is to check them by position (`keepsObject_rowObject`).
-/

set_option autoImplicit false
set_option relaxedAutoImplicit false

namespace FileForge.Csv.Accounting

open Foundation Foundation.EcmaObject Foundation.Tables Jobs.Errors Streams Transform Columns

/-! ### Rows by position -/

/-- The object has the values of the row, tidied, under the names of the selection, and no other. -/
structure Carries (options : TransformOptions) (names selected : List String) (cells : Record)
    (object : JsObject String) : Prop where
  own : ∀ entry ∈ names.zip cells, entry.1 ∈ selected →
    object.get entry.1 = some (tidy options entry.2.text)
  only : ∀ name, name ∉ selected → object.get name = none

/-- Rows are to be dropped when empty, and this one is empty in all columns of the selection. -/
def isDropped (options : TransformOptions) (names selected : List String) (cells : Record) : Bool :=
  options.dropEmptyRows && (names.zip cells).all fun entry ↦
    !selected.contains entry.1 || tidy options entry.2.text = ""

/-- What a request selects from the names of a header that the parser makes properties of. -/
def selectionOf (parser : Parser) (options : TransformOptions) (names : List String) :
    List String :=
  if options.columns = [] then names.filter fun name ↦ ¬ Swallowed parser.creation name
  else options.columns.filter fun name ↦ ¬ Swallowed parser.creation name ∧ name ∈ names

/-- The details, and the rows that are handed to the stringifier, are what the rows of the document
make them. -/
structure Accounted (parser : Parser) (options : TransformOptions) (names : List String)
    (rows : List Record) (read handed : Flow Row) (result : TransformResult) : Prop where
  rowsIn : result.rowsIn = rows.length
  balance : result.rowsIn = result.rowsOut + result.rowsDropped
  handed : ∃ objects : List (JsObject String), handed.items = objects.map .object ∧
    objects.length = result.rowsOut ∧
    List.Forall₂ (Carries options names result.columns)
      (rows.filter fun cells ↦ !isDropped options names result.columns cells) objects
  columns : rows ≠ [] → result.columns = selectionOf parser options names
  /-- The selection is there after the first row, and later rows leave it. -/
  settled : ∀ count, 0 < count → count ≤ rows.length →
    (reshapeRows options {} (read.items.take count)).1.selectedColumns = result.columns

/-! ### The selection -/

/-- Assumes: the names are distinct, and none of them is an array index. -/
theorem keysOf_ordinary {creation : Creation} {names : List String} (hnodup : names.Nodup)
    (hordinary : ∀ name ∈ names, arrayIndex name = none) :
    keysOf creation names = names.filter fun name ↦ ¬ Swallowed creation name := by
  have hrank : ∀ name ∈ names, rank name = 2 ^ 32 - 1 := fun name hname ↦ by
    rw [rank, hordinary name hname, Option.getD_none]
  refine keysOf_of_pairwise hnodup (List.Pairwise.imp_of_mem (R := fun _ _ ↦ True) ?_
    (List.pairwise_of_forall fun _ _ ↦ trivial))
  intro first second hfirst hsecond _
  rw [hrank first hfirst, hrank second hsecond]

theorem mem_of_selectColumns {options : TransformOptions} {available selected : List String}
    (hselect : selectColumns options available = .ok selected) :
    ∀ name ∈ selected, name ∈ available := by
  rw [selectColumns] at hselect
  split_ifs at hselect with hrefused hrequest
  · cases hselect
    intro name hname
    simpa using (List.mem_filter.1 hname).2
  · cases hselect
    exact fun name hname ↦ hname

/-- Assumes: the names are distinct, and none of them is an array index. -/
theorem selectColumns_ordinary {parser : Parser} {options : TransformOptions}
    {names selected : List String} (hnodup : names.Nodup)
    (hordinary : ∀ name ∈ names, arrayIndex name = none)
    (hselect : selectColumns options (keysOf parser.creation names) = .ok selected) :
    selected = selectionOf parser options names := by
  by_cases hcolumns : options.columns = []
  · rw [selectColumns_nil hcolumns] at hselect
    rw [selectionOf, if_pos hcolumns, ← keysOf_ordinary hnodup hordinary]
    exact (Except.ok.inj hselect).symm
  · simp only [selectColumns, if_pos (List.length_pos_iff.2 hcolumns)] at hselect
    split_ifs at hselect
    rw [selectionOf, if_neg hcolumns, ← Except.ok.inj hselect]
    refine List.filter_congr fun name _ ↦ ?_
    simp [mem_keysOf]

/-- After every start of the rows but the empty one the state has the selection. Assumes: the limit
is not reached, and the rows have keys that settle on one selection. -/
theorem selectedColumns_prefix {options : TransformOptions} {selected : List String}
    {rows : List (JsObject String)} (hlimit : rows.length ≤ maxRows)
    (hselect : ∀ row ∈ rows, selectColumns options row.keys = .ok selected) {count : ℕ}
    (hpos : 0 < count) (hcount : count ≤ rows.length) :
    (reshapeRows options {} ((rows.map Row.object).take count)).1.selectedColumns = selected := by
  have hlength : (rows.take count).length = count := List.length_take_of_le hcount
  have hrun := @reshapeRows_objects options selected (rows.take count) {}
    (by rw [hlength]; exact (Nat.zero_add count).trans_le (hcount.trans hlimit))
    (fun row hrow ↦ hselect row (List.mem_of_mem_take hrow)) (.inl rfl)
  rw [← List.map_take, hrun]
  exact afterAll_selectedColumns options selected {}
    (List.ne_nil_of_length_pos (by rw [hlength]; exact hpos))

/-! ### Values by position -/

/-- Assumes: the names are distinct, and the entry is one of a name and the value at its place. -/
theorem cleaned_rowObject_own (parser : Parser) (options : TransformOptions) {names : List String}
    {cells : Record} (hnodup : names.Nodup) (hlength : cells.length = names.length)
    {entry : String × Cell} (hentry : entry ∈ names.zip cells)
    (hname : ¬ Swallowed parser.creation entry.1) :
    cleaned options (parser.rowObject names (cells.map (parser.read options.trim))) entry.1 =
      tidy options entry.2.text := by
  have hzip : (entry.1, tidy options entry.2.text) ∈
      (names.zip (cells.map fun cell ↦ tidy options cell.text)).reverse := by
    rw [List.mem_reverse, List.zip_map_right]
    exact List.mem_map.2 ⟨entry, hentry, rfl⟩
  have hnames : ((names.zip (cells.map fun cell ↦ tidy options cell.text)).reverse.map
      Prod.fst).Nodup := by
    rw [List.map_reverse, List.nodup_reverse, List.map_fst_zip (by simp [hlength])]
    exact hnodup
  rw [cleaned_rowObject parser options names cells hname, valueOf, lookup_of_mem hnames hzip,
    Option.getD_some]

theorem mem_zip_of_mem {names : List String} {cells : Record}
    (hlength : cells.length = names.length) {name : String} (hname : name ∈ names) :
    ∃ cell, (name, cell) ∈ names.zip cells := by
  have hfst : name ∈ (names.zip cells).map Prod.fst := by
    rw [List.map_fst_zip hlength.ge]
    exact hname
  obtain ⟨⟨_, cell⟩, hentry, rfl⟩ := List.mem_map.1 hfst
  exact ⟨cell, hentry⟩

/-- To look at the values by name is to look at them by position. Assumes: the names are distinct,
the row is as long as the header, and the selection is from the keys of the row. -/
theorem keepsObject_rowObject (parser : Parser) (options : TransformOptions)
    {names selected : List String} {cells : Record} (hnodup : names.Nodup)
    (hlength : cells.length = names.length)
    (hsub : ∀ name ∈ selected, name ∈ keysOf parser.creation names) :
    keepsObject options selected
        (parser.rowObject names (cells.map (parser.read options.trim))) =
      !isDropped options names selected cells := by
  have hempty : ((selected.map (cleaned options (parser.rowObject names
      (cells.map (parser.read options.trim))))).all fun value ↦ value = "") =
      (names.zip cells).all fun entry ↦
        !selected.contains entry.1 || tidy options entry.2.text = "" := by
    rw [Bool.eq_iff_iff, List.all_map, List.all_eq_true, List.all_eq_true]
    constructor
    · intro hall entry hentry
      by_cases hmem : entry.1 ∈ selected
      · have hvalue := hall entry.1 hmem
        have hne := ((mem_keysOf _ _ _).1 (hsub entry.1 hmem)).1
        simp only [Function.comp_apply, decide_eq_true_eq,
          cleaned_rowObject_own parser options hnodup hlength hentry hne] at hvalue
        simp [hvalue]
      · simp [hmem]
    · intro hall name hname
      obtain ⟨hne, hheader⟩ := (mem_keysOf _ _ _).1 (hsub name hname)
      obtain ⟨cell, hentry⟩ := mem_zip_of_mem hlength hheader
      have hown := cleaned_rowObject_own parser options hnodup hlength hentry hne
      have hvalue := hall (name, cell) hentry
      simpa [hname, hown] using hvalue
  rw [keepsObject, keepsValues, hempty, isDropped]

/-- The object that is handed on carries the row exactly when `__proto__` is not selected. Assumes:
the names are distinct, the row is as long as the header, and the selection is from the keys of the
row. -/
theorem carries_outputOf_iff (parser : Parser) (options : TransformOptions)
    {names selected : List String} {cells : Record} (hnodup : names.Nodup)
    (hlength : cells.length = names.length)
    (hsub : ∀ name ∈ selected, name ∈ keysOf parser.creation names) :
    Carries options names selected cells (outputOf options selected
        (parser.rowObject names (cells.map (parser.read options.trim)))) ↔
      protoName ∉ selected := by
  constructor
  · intro hcarries hproto
    obtain ⟨cell, hentry⟩ := mem_zip_of_mem hlength ((mem_keysOf _ _ _).1 (hsub _ hproto)).2
    have hown := hcarries.own (protoName, cell) hentry hproto
    rw [outputOf, JsObject.get_ofEntries_of_swallowed _ ⟨rfl, rfl⟩] at hown
    cases hown
  · intro hproto
    constructor
    · intro entry hentry hmem
      have hne := ((mem_keysOf _ _ _).1 (hsub entry.1 hmem)).1
      rw [outputOf, JsObject.get_ofEntries _ fun h ↦ hproto (h.2 ▸ hmem), ← List.map_reverse,
        List.lookup_graph _ (List.mem_reverse.2 hmem),
        cleaned_rowObject_own parser options hnodup hlength hentry hne]
    · intro name hname
      rw [JsObject.get_eq_none_iff, outputOf, JsObject.names_ofEntries, mem_created, List.map_map]
      exact fun h ↦ hname (by simpa using h.2)

/-! ### Counters -/

/-- The counters after a run count the rows, those that are kept and those that are not. -/
theorem afterAll_counters (options : TransformOptions) (selected : List String)
    (rows : List (JsObject String)) (state : ReshapeState) :
    (state.afterAll options selected rows).seen = state.seen + rows.length ∧
    (state.afterAll options selected rows).kept =
      state.kept + rows.countP (keepsObject options selected) ∧
    (state.afterAll options selected rows).dropped =
      state.dropped + rows.countP (fun row ↦ !keepsObject options selected row) := by
  induction rows generalizing state with
  | nil => exact ⟨rfl, rfl, rfl⟩
  | cons row rest ih =>
    obtain ⟨hseen, hkept, hdropped⟩ := ih (state.after options selected row)
    rw [ReshapeState.afterAll] at hseen hkept hdropped ⊢
    rw [List.foldl_cons, hseen, hkept, hdropped]
    by_cases hkeeps : keepsObject options selected row = true
    · simp only [ReshapeState.after, hkeeps, if_true, List.length_cons, List.countP_cons,
        Bool.not_true, Bool.false_eq_true, if_false]
      omega
    · simp only [ReshapeState.after, hkeeps, List.length_cons, List.countP_cons,
        Bool.not_false, Bool.false_eq_true, if_true, if_false]
      omega

/-- A row that does not fail is counted, and it is within the limit. -/
theorem reshapeRow_seen {options : TransformOptions} {state next : ReshapeState} {row : Row}
    {pushed : Option Row} (hrow : reshapeRow options state row = .ok (next, pushed)) :
    next.seen = state.seen + 1 ∧ next.seen ≤ maxRows := by
  cases row with
  | fields values =>
    rw [reshapeRow] at hrow
    split_ifs at hrow with hlimit
    cases hrow
    exact ⟨rfl, not_lt.1 hlimit⟩
  | object object =>
    rw [reshapeRow] at hrow
    split_ifs at hrow with hlimit
    cases hselect : selectionAt options { state with seen := state.seen + 1 } object.keys with
    | error error =>
      simp only [hselect] at hrow
      cases hrow
    | ok selected =>
      simp only [hselect] at hrow
      replace hrow : (if keepsObject options selected object = true then _ else _) = _ := hrow
      split_ifs at hrow
      · cases hrow
        exact ⟨rfl, not_lt.1 hlimit⟩
      · cases hrow
        exact ⟨rfl, not_lt.1 hlimit⟩

/-- Assumes: there are more rows than the limit leaves. -/
theorem reshapeRows_beyond (options : TransformOptions) (rows : List Row) (state : ReshapeState)
    (hstate : state.seen ≤ maxRows) (hbeyond : maxRows < state.seen + rows.length) :
    ∃ error, (reshapeRows options state rows).2.failure = some error := by
  induction rows generalizing state with
  | nil => exact absurd hbeyond (not_lt.2 hstate)
  | cons row rest ih =>
    rw [reshapeRows]
    cases hrow : reshapeRow options state row with
    | error error => exact ⟨error, rfl⟩
    | ok outcome =>
      obtain ⟨next, pushed⟩ := outcome
      obtain ⟨hseen, hwithin⟩ := reshapeRow_seen hrow
      rw [List.length_cons] at hbeyond
      exact ih next hwithin (by omega)

/-! ### The job -/

/-- Assumes: the names are distinct, and the selection is from the keys of the rows. -/
theorem carries_pushedOf_iff (parser : Parser) {options : TransformOptions} {table : Table Cell}
    {selected : List String} (hnodup : (namesOf parser options table).Nodup)
    (hsub : ∀ name ∈ selected, name ∈ keysOf parser.creation (namesOf parser options table)) :
    List.Forall₂ (Carries options (namesOf parser options table) selected)
        (table.rows.filter fun cells ↦
          !isDropped options (namesOf parser options table) selected cells)
        (pushedOf parser options table selected) ↔
      (protoName ∈ selected → ∀ cells ∈ table.rows,
        isDropped options (namesOf parser options table) selected cells = true) := by
  have hwidth : ∀ cells ∈ table.rows,
      cells.length = (namesOf parser options table).length := fun cells hcells ↦ by
    simpa [namesOf] using table.consistent cells hcells
  have hfilter : table.rows.filter (keepsObject options selected ∘ fun cells ↦
      parser.rowObject (namesOf parser options table) (cells.map (parser.read options.trim))) =
      table.rows.filter fun cells ↦
        !isDropped options (namesOf parser options table) selected cells :=
    List.filter_congr fun cells hcells ↦
      keepsObject_rowObject parser options hnodup (hwidth cells hcells) hsub
  rw [pushedOf, objectsOf, List.filter_map, hfilter, List.map_map, List.forall₂_map_right_iff,
    List.forall₂_same]
  constructor
  · intro hcarries hproto cells hcells
    by_contra hkept
    have hmem : cells ∈ table.rows.filter fun cells ↦
        !isDropped options (namesOf parser options table) selected cells :=
      List.mem_filter.2 ⟨hcells, by simpa using hkept⟩
    exact (carries_outputOf_iff parser options hnodup (hwidth cells hcells) hsub).1
      (hcarries cells hmem) hproto
  · intro hdropped cells hcells
    obtain ⟨hmem, hkept⟩ := List.mem_filter.1 hcells
    refine (carries_outputOf_iff parser options hnodup (hwidth cells hmem) hsub).2 fun hproto ↦ ?_
    rw [hdropped hproto cells hmem] at hkept
    cases hkept

theorem ok_of_table {parser : Parser} {stringifier : Stringifier} {options : TransformOptions}
    {records : List Record} {table : Table Cell} {selected : List String}
    {result : TransformResult} (hheader : options.hasHeader = true)
    (hlines : parser.lines options.trim records = table.lines)
    (hlimit : table.rows.length ≤ maxRows)
    (hselect : selectColumns options (keysOf parser.creation (namesOf parser options table)) =
      .ok selected)
    (hresult : transformCsv parser stringifier options records = .ok result) :
    ∃ file, result = resultOf
      (ReshapeState.afterAll options selected {} (objectsOf parser options table)) file := by
  rw [transformCsv_table parser stringifier hheader hlines hlimit hselect] at hresult
  split at hresult
  · cases hresult
  · next file _ => exact ⟨file, (Except.ok.inj hresult).symm⟩

/-- Assumes: the document is a table with a row, within the limit, whose names are distinct and no
array indices and settle on a selection. -/
theorem accounted_iff_of_selection {parser : Parser} {stringifier : Stringifier}
    {options : TransformOptions} {records : List Record} {table : Table Cell}
    {selected : List String} {result : TransformResult} (hheader : options.hasHeader = true)
    (hlines : parser.lines options.trim records = table.lines) (hrows : table.rows ≠ [])
    (hlimit : table.rows.length ≤ maxRows) (hnodup : (namesOf parser options table).Nodup)
    (hordinary : ∀ name ∈ namesOf parser options table, arrayIndex name = none)
    (hselect : selectColumns options (keysOf parser.creation (namesOf parser options table)) =
      .ok selected)
    (hresult : transformCsv parser stringifier options records = .ok result) :
    Accounted parser options (namesOf parser options table) table.rows
        (parser.parse (parseOptions options) records)
        (reshape options (parser.parse (parseOptions options) records)).2 result ↔
      (protoName ∈ selected → ∀ cells ∈ table.rows,
        isDropped options (namesOf parser options table) selected cells = true) := by
  have hobjects : objectsOf parser options table ≠ [] := by simpa [objectsOf] using hrows
  have hlength : (objectsOf parser options table).length = table.rows.length := by
    simp [objectsOf]
  have hsame : ∀ object ∈ objectsOf parser options table,
      selectColumns options object.keys = .ok selected := fun object hobject ↦ by
    rw [keys_objectsOf parser options table hobject, hselect]
  have hrun := reshapeRows_objects (objectsOf parser options table) {}
    ((Nat.zero_add _).trans_le (hlength ▸ hlimit)) hsame (.inl rfl)
  have hitems : (reshape options (parser.parse (parseOptions options) records)).2.items =
      (pushedOf parser options table selected).map .object := by
    rw [parse_table parser hheader hlines, reshape, hrun]
    rfl
  obtain ⟨hseen, hkept, hdropped⟩ := afterAll_counters options selected
    (objectsOf parser options table) {}
  obtain ⟨file, rfl⟩ := ok_of_table hheader hlines hlimit hselect hresult
  have hcolumns : (ReshapeState.afterAll options selected {}
      (objectsOf parser options table)).selectedColumns = selected :=
    afterAll_selectedColumns options selected {} hobjects
  rw [← carries_pushedOf_iff parser hnodup (mem_of_selectColumns hselect)]
  constructor
  · rintro ⟨-, -, ⟨objects, hhanded, -, hcarries⟩, -, -⟩
    rw [hitems] at hhanded
    have hinj : Function.Injective Row.object := fun _ _ h ↦ Row.object.inj h
    obtain rfl := List.map_injective_iff.2 hinj hhanded
    simpa only [resultOf, hcolumns] using hcarries
  · intro hcarries
    refine ⟨?_, ?_, ⟨pushedOf parser options table selected, hitems, ?_, ?_⟩, ?_, ?_⟩
    · exact hseen.trans ((Nat.zero_add _).trans hlength)
    · have hcount := @List.length_eq_countP_add_countP _ (keepsObject options selected)
        (objectsOf parser options table)
      simp only [resultOf, hseen, hkept, hdropped]
      rw [hcount]
      simp
    · show _ = (ReshapeState.afterAll options selected {} _).kept
      rw [hkept, pushedOf, List.length_map, ← List.countP_eq_length_filter]
      exact (Nat.zero_add _).symm
    · simpa only [resultOf, hcolumns] using hcarries
    · intro _
      exact hcolumns.trans (selectColumns_ordinary hnodup hordinary hselect)
    · intro count hpos hcount
      rw [parse_table parser hheader hlines]
      have hsettled := selectedColumns_prefix (hlength ▸ hlimit) hsame hpos (hlength ▸ hcount)
      exact hsettled.trans hcolumns.symm

/-- Assumes: the document is a header. -/
theorem accounted_of_nil {parser : Parser} {stringifier : Stringifier}
    {options : TransformOptions} {records : List Record} {table : Table Cell}
    {result : TransformResult} (hheader : options.hasHeader = true)
    (hlines : parser.lines options.trim records = table.lines) (hrows : table.rows = [])
    (hresult : transformCsv parser stringifier options records = .ok result) :
    Accounted parser options (namesOf parser options table) table.rows
      (parser.parse (parseOptions options) records)
      (reshape options (parser.parse (parseOptions options) records)).2 result := by
  have hparse : parser.parse (parseOptions options) records = { items := [], failure := none } := by
    rw [parse_table parser hheader hlines, objectsOf, hrows]
    rfl
  obtain ⟨lines, hwritten⟩ := stringifier.exists_write_nil options.hasHeader (listedColumns options)
  simp only [transformCsv, hparse, reshape, reshapeRows, hwritten] at hresult
  obtain rfl := Except.ok.inj hresult
  rw [hparse, hrows]
  refine ⟨rfl, rfl, ⟨[], rfl, rfl, .nil⟩, fun h ↦ absurd rfl h, ?_⟩
  intro count hpos hcount
  exact absurd hcount (not_le.2 hpos)

/-- With more rows than the limit the job fails. -/
theorem not_ok_of_beyond {parser : Parser} {stringifier : Stringifier}
    {options : TransformOptions} {records : List Record} {table : Table Cell}
    (hheader : options.hasHeader = true)
    (hlines : parser.lines options.trim records = table.lines)
    (hbeyond : maxRows < table.rows.length) :
    ∃ error, transformCsv parser stringifier options records = .error error := by
  have hlength : ((objectsOf parser options table).map Row.object).length =
      table.rows.length := by
    simp [objectsOf]
  obtain ⟨error, herror⟩ := reshapeRows_beyond options
    ((objectsOf parser options table).map .object) {} (Nat.zero_le _)
    (by rw [hlength]; exact hbeyond.trans_eq (Nat.zero_add _).symm)
  simp only [transformCsv, reshape, parse_table parser hheader hlines, herror, Option.some_or]
  split
  · next message _ _ => exact ⟨_, rfl⟩
  · next failure _ hfailure => exact ⟨_, rfl⟩
  · next hfailure => cases hfailure

/-- When the job completes, every row is accounted for exactly when `__proto__` is not among the
selected names or no row is kept, and with more rows than the limit it fails. Assumes: the document
is a table with a header of distinct names, none of which is an array index. -/
theorem accounted_iff (parser : Parser) (stringifier : Stringifier)
    {options : TransformOptions} {records : List Record} {table : Table Cell}
    (hheader : options.hasHeader = true)
    (hlines : parser.lines options.trim records = table.lines)
    (hnodup : (namesOf parser options table).Nodup)
    (hordinary : ∀ name ∈ namesOf parser options table, arrayIndex name = none) :
    (∀ result, transformCsv parser stringifier options records = .ok result →
      (Accounted parser options (namesOf parser options table) table.rows
          (parser.parse (parseOptions options) records)
          (reshape options (parser.parse (parseOptions options) records)).2 result ↔
        (protoName ∈ selectionOf parser options (namesOf parser options table) →
          ∀ cells ∈ table.rows, isDropped options (namesOf parser options table)
            (selectionOf parser options (namesOf parser options table)) cells = true))) ∧
    (maxRows < table.rows.length →
      ∃ error, transformCsv parser stringifier options records = .error error) := by
  refine ⟨fun result hresult ↦ ?_, not_ok_of_beyond hheader hlines⟩
  have hlimit : table.rows.length ≤ maxRows := by
    by_contra hbeyond
    obtain ⟨error, herror⟩ := @not_ok_of_beyond parser stringifier _ _ _ hheader hlines
      (not_le.1 hbeyond)
    rw [herror] at hresult
    cases hresult
  by_cases hrows : table.rows = []
  · refine iff_of_true (accounted_of_nil hheader hlines hrows hresult) fun _ cells hcells ↦ ?_
    rw [hrows] at hcells
    cases hcells
  · cases hselect : selectColumns options
        (keysOf parser.creation (namesOf parser options table)) with
    | error error =>
      rw [transformCsv_refused parser stringifier hheader hlines hrows hselect] at hresult
      cases hresult
    | ok selected =>
      rw [← selectColumns_ordinary hnodup hordinary hselect]
      exact accounted_iff_of_selection hheader hlines hrows hlimit hnodup hordinary hselect hresult

/-- A station, a row that is blank where it is asked for, and a row that is not. -/
def gaps : Table Cell where
  header := [⟨"city", false⟩, ⟨"temp", false⟩]
  rows := [[⟨" ", true⟩, ⟨"21", false⟩], [⟨"Bursa", false⟩, ⟨"", false⟩]]
  consistent := by decide

theorem accounted_gaps :
    ∃ result, transformCsv .plain .plain { columns := ["city"] } gaps.lines = .ok result ∧
      Accounted .plain { columns := ["city"] } (namesOf .plain { columns := ["city"] } gaps)
        gaps.rows (Parser.plain.parse (parseOptions { columns := ["city"] }) gaps.lines)
        (reshape { columns := ["city"] }
          (Parser.plain.parse (parseOptions { columns := ["city"] }) gaps.lines)).2 result ∧
      result.rowsIn = 2 ∧ result.rowsOut = 1 ∧ result.rowsDropped = 1 := by
  have hrun : transformCsv .plain .plain { columns := ["city"] } gaps.lines = .ok
      { file := [["city"], ["Bursa"]]
        rowsIn := 2
        rowsOut := 1
        rowsDropped := 1
        columns := ["city"] } := by
    rfl
  have hiff := (@accounted_iff .plain .plain { columns := ["city"] } gaps.lines
    gaps rfl rfl (by decide) (by decide)).1 _ hrun
  exact ⟨_, hrun, hiff.2 (by decide), rfl, rfl, rfl⟩

/-- A column of the name `__proto__`, which the parser makes a property of. -/
def prototypes : Table Cell where
  header := [⟨"a", false⟩, ⟨"__proto__", false⟩]
  rows := [[⟨"1", false⟩, ⟨"2", false⟩]]
  consistent := by decide

/-- The column is selected and reported, and the row that is handed on has no value there. -/
theorem not_accounted_prototypes :
    ∃ result, transformCsv .plain .plain {} prototypes.lines = .ok result ∧
      result.columns = ["a", "__proto__"] ∧ result.file = [["a"], ["1"]] ∧
      ¬ Accounted .plain {} (namesOf .plain {} prototypes) prototypes.rows
        (Parser.plain.parse (parseOptions {}) prototypes.lines)
        (reshape {} (Parser.plain.parse (parseOptions {}) prototypes.lines)).2 result := by
  have hrun : transformCsv .plain .plain {} prototypes.lines = .ok
      { file := [["a"], ["1"]]
        rowsIn := 1
        rowsOut := 1
        rowsDropped := 0
        columns := ["a", "__proto__"] } := by
    rfl
  refine ⟨_, hrun, rfl, rfl, ?_⟩
  rintro ⟨-, -, ⟨objects, hhanded, -, hcarries⟩, -, -⟩
  have hitems : (reshape {} (Parser.plain.parse (parseOptions {}) prototypes.lines)).2.items =
      [outputOf {} ["a", "__proto__"]
        (Parser.plain.rowObject ["a", "__proto__"] ["1", "2"])].map .object := by
    rfl
  rw [hitems] at hhanded
  have hinj : Function.Injective Row.object := fun _ _ h ↦ Row.object.inj h
  obtain rfl := List.map_injective_iff.2 hinj hhanded
  have hrows : (prototypes.rows.filter fun cells ↦
      !isDropped {} (namesOf .plain {} prototypes) ["a", "__proto__"] cells) =
      prototypes.rows := by
    decide
  rw [hrows] at hcarries
  have hown := (List.forall₂_cons.1 hcarries).1.own ("__proto__", ⟨"2", false⟩) (by decide)
    (by decide)
  exact absurd hown (by decide)

end FileForge.Csv.Accounting
