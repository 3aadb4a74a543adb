import FileForge.Csv.Transform

/-!
# Which columns are written

The columns of a rewritten table are settled in two places: `reshape` selects from the keys of the
first row, and the stringifier is set up before with the list of the request. `WritesRequested` and
`KeepsEverything` say what a request for some columns and a request for none ask for, in terms of
the tidied table.

With a request the two places agree when every requested name is a key (`writesRequested_iff`); a
name that is not in the header becomes a column of empty fields, and so does `__proto__`, which no
object that is handed on has. Without one the names go through the keys of objects and come back as
they were only if these keep their number and their order, and only if some row is handed on
(`keepsEverything_iff`).
-/

set_option autoImplicit false
set_option relaxedAutoImplicit false

namespace FileForge.Csv.Columns

open Foundation Foundation.EcmaObject Foundation.Tables Streams Transform

/-! ### A request for some columns -/

/-- The table that is asked for: the requested names that the header holds, in requested order, and
the rows that are kept. -/
def requested (parser : Parser) (options : TransformOptions) (table : Table Cell) : Table String :=
  ((tidied parser options table).select (options.columns.filter fun name ↦
    (tidied parser options table).header.contains name)).keepRows (keepsValues options)

/-- The job completes, the file is the table that is asked for, and the columns that are reported
are the header of the file. -/
def WritesRequested (parser : Parser) (stringifier : Stringifier) (options : TransformOptions)
    (records : List Record) (table : Table Cell) : Prop :=
  ∃ result, transformCsv parser stringifier options records = .ok result ∧
    result.file = (requested parser options table).lines ∧
    result.file.head? = some result.columns

theorem selectColumns_requested {options : TransformOptions} {available : List String}
    {name : String} (hrequest : name ∈ options.columns) (hname : name ∈ available) :
    selectColumns options available =
      .ok (options.columns.filter fun name ↦ available.contains name) := by
  have hpos : 0 < options.columns.length := List.length_pos_of_mem hrequest
  have hmem : name ∈ options.columns.filter fun name ↦ available.contains name :=
    List.mem_filter.2 ⟨hrequest, by simpa using hname⟩
  have hsome : ¬ (options.columns.filter fun name ↦ available.contains name).length = 0 :=
    (List.length_pos_of_mem hmem).ne'
  simp only [selectColumns, if_pos hpos, hsome, and_false, if_false]

/-- Assumes: something is requested, and none of it is available. -/
theorem selectColumns_refused {options : TransformOptions} {available : List String}
    (hrequest : options.columns ≠ []) (hnone : ∀ name ∈ options.columns, name ∉ available) :
    selectColumns options available =
      .error (.invalidCsv ("none of the requested columns exist (available: " ++
        ", ".intercalate available ++ ")")) := by
  have hpos : 0 < options.columns.length := List.length_pos_iff.2 hrequest
  have hempty : (options.columns.filter fun name ↦ available.contains name) = [] :=
    List.filter_eq_nil_iff.2 fun name hname ↦ by simpa using hnone name hname
  simp only [selectColumns, hempty, hpos, List.length_nil, and_self, if_true]

/-- Assumes: every requested name is available. -/
theorem filter_requested {options : TransformOptions} {available : List String}
    (hall : ∀ name ∈ options.columns, name ∈ available) :
    (options.columns.filter fun name ↦ available.contains name) = options.columns :=
  List.filter_eq_self.2 fun name hname ↦ by simpa using hall name hname

/-- The written columns are those that are asked for exactly when every requested name is in the
header, and, if `__proto__` is one of them, the parser makes a property of it and no kept row has a
value there. Assumes: the document is a table with a header and a row, within the limit, the request
shares a name with the header, and the stringifier writes a name that is no key as an empty field. -/
theorem writesRequested_iff (parser : Parser) {stringifier : Stringifier}
    (hblank : stringifier.Blank) {options : TransformOptions} {records : List Record}
    {table : Table Cell} (hheader : options.hasHeader = true)
    (hlines : parser.lines options.trim records = table.lines) (hrows : table.rows ≠ [])
    (hlimit : table.rows.length ≤ maxRows)
    (hshare : ∃ name ∈ options.columns, name ∈ namesOf parser options table) :
    WritesRequested parser stringifier options records table ↔
      (∀ name ∈ options.columns, name ∈ namesOf parser options table) ∧
      (protoName ∈ options.columns →
        parser.creation = .defined ∧ ProtoBlank parser options table options.columns) := by
  obtain ⟨shared, hshared, hsharedName⟩ := hshare
  have hrequest : options.columns ≠ [] := List.ne_nil_of_mem hshared
  have hlisted : listedColumns options = some options.columns :=
    if_pos (List.length_pos_iff.2 hrequest)
  have hobjects : objectsOf parser options table ≠ [] := by simpa [objectsOf] using hrows
  -- the run, once the keys hold every requested name
  have hrun : (∀ name ∈ options.columns,
      name ∈ keysOf parser.creation (namesOf parser options table)) →
      transformCsv parser stringifier options records =
        .ok (resultOf (ReshapeState.afterAll options options.columns {}
            (objectsOf parser options table))
          (options.columns :: (pushedOf parser options table options.columns).map
            fun record ↦ options.columns.map (fieldOf record))) := by
    intro hkeys
    have hselect := selectColumns_requested hshared (hkeys shared hshared)
    rw [filter_requested hkeys] at hselect
    rw [transformCsv_table parser stringifier hheader hlines hlimit hselect, hlisted,
      stringifier.write_listed hblank]
  have hasked : (∀ name ∈ options.columns, name ∈ namesOf parser options table) →
      (requested parser options table).lines = options.columns ::
        (((tidied parser options table).select options.columns).keepRows
          (keepsValues options)).rows := by
    intro hall
    have hfilter : (options.columns.filter fun name ↦
        (tidied parser options table).header.contains name) = options.columns :=
      filter_requested hall
    rw [requested, hfilter]
    rfl
  constructor
  · rintro ⟨result, hresult, hfile, hreported⟩
    by_cases hsome : ∃ name ∈ options.columns,
      name ∈ keysOf parser.creation (namesOf parser options table)
    · have hkeys : ∀ name ∈ options.columns,
          name ∈ keysOf parser.creation (namesOf parser options table) := by
        obtain ⟨name, hname, havailable⟩ := hsome
        rw [transformCsv_table parser stringifier hheader hlines hlimit
          (selectColumns_requested hname havailable), hlisted,
          stringifier.write_listed hblank] at hresult
        obtain rfl := Except.ok.inj hresult
        simp only [resultOf, List.head?_cons, afterAll_selectedColumns _ _ _ hobjects,
          Option.some.injEq] at hreported
        intro other hother
        simpa using List.filter_eq_self.1 hreported.symm other hother
      have hall : ∀ name ∈ options.columns, name ∈ namesOf parser options table :=
        fun name hname ↦ ((mem_keysOf _ _ _).1 (hkeys name hname)).2
      have hkept : ∀ name ∈ options.columns, ¬ Swallowed parser.creation name :=
        fun name hname ↦ ((mem_keysOf _ _ _).1 (hkeys name hname)).1
      refine ⟨hall, fun hproto ↦ ⟨?_, ?_⟩⟩
      · cases hcreation : parser.creation with
        | assigned => exact absurd ⟨hcreation, rfl⟩ (hkept protoName hproto)
        | defined => rfl
      · rw [hrun hkeys] at hresult
        obtain rfl := Except.ok.inj hresult
        rw [hasked hall] at hfile
        exact (pushed_values_iff parser options table hkept).1 (List.cons.inj hfile).2 hproto
    · push Not at hsome
      rw [transformCsv_refused parser stringifier hheader hlines hrows
        (selectColumns_refused hrequest hsome)] at hresult
      cases hresult
  · rintro ⟨hall, hproto⟩
    have hkept : ∀ name ∈ options.columns, ¬ Swallowed parser.creation name := by
      rintro name hname ⟨hassigned, rfl⟩
      rw [(hproto hname).1] at hassigned
      cases hassigned
    have hkeys : ∀ name ∈ options.columns,
        name ∈ keysOf parser.creation (namesOf parser options table) :=
      fun name hname ↦ (mem_keysOf _ _ _).2 ⟨hkept name hname, hall name hname⟩
    refine ⟨_, hrun hkeys, ?_, ?_⟩
    · rw [hasked hall]
      exact congrArg (options.columns :: ·)
        ((pushed_values_iff parser options table hkept).2 fun h ↦ (hproto h).2)
    · exact congrArg some (afterAll_selectedColumns options options.columns {} hobjects).symm

/-- One station, unquoted. -/
def stations : Table Cell where
  header := [⟨"city", false⟩, ⟨"temp", false⟩]
  rows := [[⟨"Ankara", false⟩, ⟨" 21 ", false⟩]]
  consistent := by decide

theorem writesRequested_reordered :
    WritesRequested .plain .plain { columns := ["temp", "city"] } stations.lines stations :=
  (writesRequested_iff .plain Stringifier.blank_plain rfl rfl (by decide) (by decide)
    ⟨"city", by decide, by decide⟩).2 (by decide)

/-- A requested name that is not in the header is a column of the file and none of the report. -/
theorem not_writesRequested_missing :
    ¬ WritesRequested .plain .plain { columns := ["city", "does_not_exist"] } stations.lines
      stations := by
  have hrun : transformCsv .plain .plain { columns := ["city", "does_not_exist"] }
      stations.lines = .ok
        { file := [["city", "does_not_exist"], ["Ankara", ""]]
          rowsIn := 1
          rowsOut := 1
          rowsDropped := 0
          columns := ["city"] } := by
    rfl
  rintro ⟨result, hresult, -, hreported⟩
  rw [hrun] at hresult
  obtain rfl := Except.ok.inj hresult
  exact absurd hreported (by decide)

/-! ### A request for no columns -/

/-- The tidied table, in the rows that are kept. -/
def everything (parser : Parser) (options : TransformOptions) (table : Table Cell) : Table String :=
  (tidied parser options table).keepRows (keepsValues options)

/-- The job completes, and the file is the tidied table, in the rows that are kept. -/
def KeepsEverything (parser : Parser) (stringifier : Stringifier) (options : TransformOptions)
    (records : List Record) (table : Table Cell) : Prop :=
  ∃ result, transformCsv parser stringifier options records = .ok result ∧
    result.file = (everything parser options table).lines

theorem keys_outputOf (options : TransformOptions) (selected : List String)
    (row : JsObject String) :
    (outputOf options selected row).keys = keysOf .assigned selected := by
  rw [outputOf, JsObject.keys_ofEntries, List.map_map]
  simp [Function.comp_def]

/-- Assumes: nothing is requested. -/
theorem selectColumns_nil {options : TransformOptions} (hcolumns : options.columns = [])
    (available : List String) : selectColumns options available = .ok available := by
  simp [selectColumns, hcolumns]

/-- Without a list of columns the file is empty, or its header is the keys of the first object. -/
theorem write_pushed (parser : Parser) (stringifier : Stringifier) {options : TransformOptions}
    (hcolumns : options.columns = []) (table : Table Cell) (selected : List String) :
    stringifier.write true (listedColumns options)
        ((pushedOf parser options table selected).map .object) =
      .ok (if pushedOf parser options table selected = [] then []
        else keysOf .assigned selected :: (pushedOf parser options table selected).map
          fun record ↦ (keysOf .assigned selected).map (fieldOf record)) := by
  have hlisted : listedColumns options = none := by simp [listedColumns, hcolumns]
  have hkeys : ∀ object ∈ pushedOf parser options table selected,
      object.keys = keysOf .assigned selected := by
    intro object hobject
    obtain ⟨row, -, rfl⟩ := List.mem_map.1 hobject
    exact keys_outputOf options selected row
  rw [hlisted]
  cases hpushed : pushedOf parser options table selected with
  | nil => exact stringifier.write_inferred_nil true
  | cons first rest =>
    rw [hpushed] at hkeys
    have hfirst := hkeys first List.mem_cons_self
    rw [if_neg (List.cons_ne_nil first rest), stringifier.write_inferred, hfirst]
    exact fun record hrecord ↦ (hkeys record (List.mem_cons_of_mem first hrecord)).trans hfirst.symm

/-- Assumes: the names of the header are enumerated as they stand. -/
theorem pushed_everything (parser : Parser) (options : TransformOptions) (table : Table Cell)
    (hself : keysOf .assigned (namesOf parser options table) = namesOf parser options table) :
    (pushedOf parser options table (namesOf parser options table)).map
        (fun record ↦ (namesOf parser options table).map (fieldOf record)) =
      (everything parser options table).rows := by
  obtain ⟨hnodup, hnone, -⟩ := (keysOf_eq_self_iff _ _).1 hself
  have hselect : (tidied parser options table).select (namesOf parser options table) =
      tidied parser options table :=
    @Table.select_self (tidied parser options table) hnodup
  rw [(pushed_values_iff parser options table fun name hname h ↦ hnone name hname ⟨rfl, h.2⟩).2
    fun hproto ↦ absurd ⟨rfl, rfl⟩ (hnone _ hproto), hselect, everything]

/-- Names that an assignment creates in their order are created so by any parser. -/
theorem keysOf_eq_of_assigned (creation : Creation) {names : List String}
    (hself : keysOf .assigned names = names) : keysOf creation names = names := by
  obtain ⟨hnodup, hnone, hordered⟩ := (keysOf_eq_self_iff _ _).1 hself
  exact (keysOf_eq_self_iff _ _).2
    ⟨hnodup, fun name hname h ↦ hnone name hname ⟨rfl, h.2⟩, hordered⟩

/-- Everything is kept exactly when the names of the header are distinct, `__proto__` is none of
them, array indices stand in front and in ascending order, and some row is kept. Assumes: the
document is a table with a header, within the limit, and nothing is requested. -/
theorem keepsEverything_iff (parser : Parser) (stringifier : Stringifier)
    {options : TransformOptions} {records : List Record} {table : Table Cell}
    (hheader : options.hasHeader = true)
    (hlines : parser.lines options.trim records = table.lines)
    (hlimit : table.rows.length ≤ maxRows) (hcolumns : options.columns = []) :
    KeepsEverything parser stringifier options records table ↔
      (namesOf parser options table).Nodup ∧ protoName ∉ namesOf parser options table ∧
      ((namesOf parser options table).Pairwise fun name other ↦ rank name ≤ rank other) ∧
      (everything parser options table).rows ≠ [] := by
  have hrun := transformCsv_table parser stringifier hheader hlines hlimit
    (selectColumns_nil hcolumns _)
  rw [write_pushed parser stringifier hcolumns] at hrun
  constructor
  · rintro ⟨result, hresult, hfile⟩
    rw [hrun] at hresult
    obtain rfl := Except.ok.inj hresult
    by_cases hpushed : pushedOf parser options table
      (keysOf parser.creation (namesOf parser options table)) = []
    · simp only [resultOf, if_pos hpushed] at hfile
      exact absurd hfile.symm (List.cons_ne_nil _ _)
    · simp only [resultOf, if_neg hpushed] at hfile
      have hwritten : keysOf .assigned (keysOf parser.creation (namesOf parser options table)) =
          namesOf parser options table := (List.cons.inj hfile).1
      -- a header that comes back is in the order of its keys and holds no `__proto__`
      have hself : keysOf .assigned (namesOf parser options table) =
          namesOf parser options table := by
        rw [keysOf_eq_self_iff]
        refine ⟨hwritten ▸ keysOf_nodup _ _, fun name hname ↦ ?_,
          hwritten ▸ enumerated_pairwise _⟩
        rw [← hwritten] at hname
        exact ((mem_keysOf _ _ _).1 hname).1
      obtain ⟨hnodup, hnone, hordered⟩ := (keysOf_eq_self_iff _ _).1 hself
      refine ⟨hnodup, fun hproto ↦ hnone _ hproto ⟨rfl, rfl⟩, hordered, ?_⟩
      rw [← pushed_everything parser options table hself]
      rw [keysOf_eq_of_assigned parser.creation hself] at hpushed
      exact fun hnil ↦ hpushed (List.map_eq_nil_iff.1 hnil)
  · rintro ⟨hnodup, hproto, hordered, hrows⟩
    have hself : keysOf .assigned (namesOf parser options table) =
        namesOf parser options table :=
      (keysOf_eq_self_iff _ _).2 ⟨hnodup, fun name hname h ↦ hproto (h.2 ▸ hname), hordered⟩
    rw [keysOf_eq_of_assigned parser.creation hself, hself] at hrun
    have hpushed : pushedOf parser options table (namesOf parser options table) ≠ [] := by
      intro hnil
      apply hrows
      rw [← pushed_everything parser options table hself, hnil, List.map_nil]
    refine ⟨_, hrun, ?_⟩
    show (if _ then _ else _) = _
    rw [if_neg hpushed, pushed_everything parser options table hself]
    rfl

theorem keepsEverything_stations :
    KeepsEverything .plain .plain {} stations.lines stations :=
  (keepsEverything_iff .plain .plain rfl rfl (by decide) rfl).2 (by decide)

/-- A column per year, after the column of the city. -/
def years : Table Cell where
  header := [⟨"city", false⟩, ⟨"2024", false⟩]
  rows := [[⟨"Ankara", false⟩, ⟨"21", false⟩]]
  consistent := by decide

/-- The column of the year is written in front of the column of the city. -/
theorem not_keepsEverything_years : ¬ KeepsEverything .plain .plain {} years.lines years := by
  have hrun : transformCsv .plain .plain {} years.lines = .ok
      { file := [["2024", "city"], ["21", "Ankara"]]
        rowsIn := 1
        rowsOut := 1
        rowsDropped := 0
        columns := ["2024", "city"] } := by
    rfl
  rintro ⟨result, hresult, hfile⟩
  rw [hrun] at hresult
  obtain rfl := Except.ok.inj hresult
  exact absurd hfile (by decide)

end FileForge.Csv.Columns
