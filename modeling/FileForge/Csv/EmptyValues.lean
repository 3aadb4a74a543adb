import FileForge.Csv.Validate

/-!
# Empty values by column

`inspect` looks at the values of a row by position and counts the empty ones in an object, under the
trimmed names of the columns. `ReadsColumns` says that the counts of the positions can be read off
the report, in whatever way; `readsColumns_iff` says for which headers they can.

That they can is by the count under a name (`count_flatMap_blankNames`). That they cannot is by two
documents that differ in a count and not in the report: rows that are blank at one position only
(`probe`), in two columns of one name or in the column `__proto__`, under which nothing is counted.
-/

set_option autoImplicit false
set_option relaxedAutoImplicit false

namespace FileForge.Csv.EmptyValues

open Foundation Foundation.EcmaObject Streams Transform Validate

/-! ### Reading a report -/

/-- The number of rows that have a value at a position and have a blank one there. -/
def blanksAt (position : ℕ) (rows : List (List String)) : ℕ :=
  rows.countP fun row ↦ row[position]?.any isBlank

/-- The document of a header and data rows reports what can be read for each position of the header
as the number of blank values there, and values beyond the header change no count. -/
def ReadsColumns (parser : Parser) (header : Record) : Prop :=
  (∃ reading : ValidationReport → ℕ → ℕ, ∀ (rows : List Record) (result : ValidateResult),
    (∀ record ∈ rows, record ≠ []) →
    validateCsv parser {} (header :: rows) = .ok result →
    ∀ position < header.length,
      reading result.report position = blanksAt position (textsOf rows)) ∧
  ∀ (rows : List Record) (result cut : ValidateResult), (∀ record ∈ rows, record ≠ []) →
    validateCsv parser {} (header :: rows) = .ok result →
    validateCsv parser {} (header :: rows.map (List.take header.length)) = .ok cut →
    result.report.emptyByColumn = cut.report.emptyByColumn

/-- The names that the report has for the columns of a header. -/
def reportedNames (header : Record) : List String :=
  header.map fun cell ↦ EcmaText.trim cell.text

/-! ### Counts under a name -/

theorem zeros_eq_ofEntries (columns : List String) :
    zeros columns = JsObject.ofEntries .assigned (columns.map fun name ↦ (name, 0)) := by
  rw [JsObject.ofEntries, List.foldl_map]
  rfl

theorem tally_zeros_proto (columns : List String) :
    tally (zeros columns) protoName = zeros columns := by
  refine JsObject.assign_proto ?_ _
  rw [zeros_eq_ofEntries, JsObject.names_ofEntries, mem_created]
  exact fun h ↦ h.1 ⟨rfl, rfl⟩

theorem get_foldl_tally {name : String} (hname : name ≠ protoName) (names : List String)
    {emptyByColumn : JsObject ℕ} {count : ℕ} (hcount : emptyByColumn.get name = some count) :
    (names.foldl tally emptyByColumn).get name = some (count + names.count name) := by
  induction names generalizing emptyByColumn count with
  | nil => simpa using hcount
  | cons first rest ih =>
    rw [List.foldl_cons]
    by_cases hsame : first = name
    · have hnext : (tally emptyByColumn first).get name = some (count + 1) := by
        subst hsame
        rw [tally, JsObject.assign, JsObject.get_store _ fun h ↦ hname h.2, if_pos rfl, hcount]
        rfl
      rw [ih hnext, hsame, List.count_cons_self]
      congr 1
      omega
    · have hnext : (tally emptyByColumn first).get name = some count :=
        (JsObject.get_store_of_ne _ _ fun h ↦ hsame h.symm).trans hcount
      rw [ih hnext, List.count_cons_of_ne hsame]

theorem get_zeros {columns : List String} {name : String} (hname : name ≠ protoName)
    (hmem : name ∈ columns) : (zeros columns).get name = some 0 := by
  rw [zeros_eq_ofEntries, JsObject.get_ofEntries _ fun h ↦ hname h.2, ← List.map_reverse,
    List.lookup_graph _ (List.mem_reverse.2 hmem)]

/-- Assumes: the names are distinct. -/
theorem count_blankNames {columns : List String} (hnodup : columns.Nodup) (row : List String)
    {position : ℕ} (hposition : position < columns.length) :
    (blankNames columns row).count columns[position] =
      if row[position]?.any isBlank then 1 else 0 := by
  induction columns generalizing row position with
  | nil => exact absurd hposition (Nat.not_lt_zero _)
  | cons first rest ih =>
    obtain ⟨hfresh, hrest⟩ := List.nodup_cons.1 hnodup
    cases row with
    | nil => simp [blankNames]
    | cons value values =>
      have hnames : blankNames (first :: rest) (value :: values) =
          (if isBlank value then [first] else []) ++ blankNames rest values := by
        by_cases hblank : isBlank value = true
        · simp [blankNames, hblank]
        · simp [blankNames, hblank]
      have hsub : ∀ name ∈ blankNames rest values, name ∈ rest := by
        intro name hname
        obtain ⟨entry, hentry, rfl⟩ := List.mem_map.1 hname
        exact (List.of_mem_zip (List.mem_of_mem_filter hentry)).1
      rw [hnames, List.count_append]
      cases position with
      | zero =>
        have hzero : (blankNames rest values).count first = 0 :=
          List.count_eq_zero.2 fun h ↦ hfresh (hsub first h)
        by_cases hblank : isBlank value = true
        · simp [hblank, hzero]
        · simp [hblank, hzero]
      | succ position =>
        have hbound : position < rest.length := by simpa using hposition
        have hne : ¬ first = rest[position] := fun h ↦ hfresh (h ▸ List.getElem_mem hbound)
        have hnone : (if isBlank value then [first] else []).count rest[position] = 0 := by
          rw [List.count_eq_zero]
          split_ifs
          · simpa using fun h ↦ hne h.symm
          · exact List.not_mem_nil
        rw [List.getElem_cons_succ, List.getElem?_cons_succ, hnone, Nat.zero_add]
        exact ih hrest values hbound

/-- Assumes: the names are distinct. -/
theorem count_flatMap_blankNames {columns : List String} (hnodup : columns.Nodup)
    (rows : List (List String)) {position : ℕ} (hposition : position < columns.length) :
    (rows.flatMap (blankNames columns)).count columns[position] = blanksAt position rows := by
  induction rows with
  | nil => rfl
  | cons row rest ih =>
    rw [List.flatMap_cons, List.count_append, ih, count_blankNames hnodup row hposition, blanksAt,
      blanksAt, List.countP_cons, Nat.add_comm]

/-- What a row has beyond the last column is counted nowhere. -/
theorem blankNames_take (columns row : List String) :
    blankNames columns (row.take columns.length) = blankNames columns row := by
  have hzip : columns.zip (row.take columns.length) = columns.zip row := by
    induction columns generalizing row with
    | nil => rfl
    | cons first rest ih =>
      cases row with
      | nil => rfl
      | cons value values => simp [ih]
  rw [blankNames, hzip, blankNames]

/-! ### Documents with one report -/

/-- A row with a value more than the header, blank at one position only. -/
def probe (header : Record) (position : ℕ) : Record :=
  (List.replicate header.length ⟨"x", false⟩).set position ⟨"", false⟩ ++ [⟨"x", false⟩]

theorem texts_probe (header : Record) (position : ℕ) :
    (probe header position).map Cell.text =
      (List.replicate header.length "x").set position "" ++ ["x"] := by
  simp [probe, List.map_set]

theorem blankNames_probe (columns : List String) (position : ℕ) :
    blankNames columns ((List.replicate columns.length "x").set position "" ++ ["x"]) =
      columns[position]?.toList := by
  have hblank : isBlank "" = true := by decide
  have hfull : isBlank "x" = false := by decide
  have hnone : ∀ names : List String,
      blankNames names (List.replicate names.length "x" ++ ["x"]) = [] := by
    intro names
    induction names with
    | nil => rfl
    | cons first rest ih =>
      rw [blankNames] at ih ⊢
      simpa [List.replicate_succ, hfull] using ih
  induction columns generalizing position with
  | nil => rfl
  | cons first rest ih =>
    cases position with
    | zero =>
      have hrest := hnone rest
      rw [blankNames] at hrest ⊢
      simpa [List.replicate_succ, hblank] using hrest
    | succ position =>
      have hrest := ih position
      rw [blankNames] at hrest ⊢
      simpa [List.replicate_succ, hfull] using hrest

theorem exactReport_probe (header : Record) (position : ℕ) :
    exactReport {} (textsOf [header, probe header position]) =
      { rows := 1
        columns := reportedNames header
        columnCount := header.length
        inconsistentRows := 1
        inconsistentExamples := [2]
        emptyByColumn := ((reportedNames header)[position]?.toList).foldl tally
          (zeros (reportedNames header))
        emptyRows := 0 } := by
  have hcolumns : columnsOf {} (textsOf [header, probe header position]) =
      reportedNames header := by
    simp [columnsOf, textsOf, reportedNames]
  have hlength : firstLength (textsOf [header, probe header position]) = header.length := by
    simp [firstLength, textsOf]
  have hdata : dataRows {} (textsOf [header, probe header position]) =
      [(List.replicate header.length "x").set position "" ++ ["x"]] := by
    simp [dataRows, textsOf, texts_probe]
  have hnames : (reportedNames header).length = header.length := by simp [reportedNames]
  have hpositions : inconsistentPositions {} (textsOf [header, probe header position]) = [2] := by
    rw [inconsistentPositions, hlength]
    simp [textsOf, texts_probe]
  have hfull : isBlank "x" = false := by decide
  rw [exactReport, hcolumns, hlength, hdata, hpositions, List.flatMap_singleton, ← hnames,
    blankNames_probe]
  simp [hfull]

theorem blanksAt_probe {header : Record} (position : ℕ) {other : ℕ}
    (hother : other < header.length) :
    blanksAt other (textsOf [probe header position]) = if other = position then 1 else 0 := by
  have hblank : isBlank "" = true := by decide
  have hfull : isBlank "x" = false := by decide
  by_cases hsame : other = position
  · subst hsame
    simp [blanksAt, textsOf, texts_probe, hother, hblank, List.getElem?_append]
  · have hne : ¬ position = other := fun h ↦ hsame h.symm
    simp [blanksAt, textsOf, texts_probe, hother, hsame, hne, hfull, List.getElem?_append]

/-- Two probes with one report make it unreadable. Assumes: the header is not empty. -/
theorem not_readsColumns_of_probes (parser : Parser) {header : Record} (hheader : header ≠ [])
    {first second : ℕ} (hfirst : first < header.length) (hne : first ≠ second)
    (hsame : (reportedNames header)[first]?.toList.foldl tally (zeros (reportedNames header)) =
      (reportedNames header)[second]?.toList.foldl tally (zeros (reportedNames header))) :
    ¬ ReadsColumns parser header := by
  rintro ⟨⟨reading, hreading⟩, -⟩
  have hcount : ∀ position, reading (exactReport {} (textsOf [header, probe header position]))
      first = if first = position then 1 else 0 := by
    intro position
    have hrecords : ∀ record ∈ [header, probe header position], record ≠ [] := by
      simp [hheader, probe]
    have hrun := validateCsv_exact parser {} hrecords
    rw [if_neg (by simp [dataRows, textsOf, maxRows])] at hrun
    rw [← blanksAt_probe position hfirst]
    exact hreading [probe header position] _ (by simp [probe]) hrun first hfirst
  have hequal : exactReport {} (textsOf [header, probe header first]) =
      exactReport {} (textsOf [header, probe header second]) := by
    rw [exactReport_probe, exactReport_probe, hsame]
  have hone := hcount first
  rw [hequal, hcount second, if_pos rfl, if_neg hne] at hone
  cases hone

/-- Assumes: the header is not empty. -/
theorem reportedNames_of_readsColumns (parser : Parser) {header : Record} (hheader : header ≠ [])
    (hreads : ReadsColumns parser header) :
    (reportedNames header).Nodup ∧ protoName ∉ reportedNames header := by
  have hlength : (reportedNames header).length = header.length := by simp [reportedNames]
  constructor
  · rw [List.nodup_iff_getElem?_ne_getElem?]
    intro first second horder hsecond hsame
    exact not_readsColumns_of_probes parser hheader (by omega) horder.ne (by rw [hsame]) hreads
  · intro hmem
    obtain ⟨position, hposition, hname⟩ := List.getElem_of_mem hmem
    have hsome : (reportedNames header)[position]? = some protoName := by
      rw [List.getElem?_eq_getElem hposition, hname]
    have hnone : (reportedNames header)[header.length]? = none :=
      List.getElem?_eq_none hlength.le
    refine not_readsColumns_of_probes parser hheader (hlength ▸ hposition)
      (hlength ▸ hposition).ne ?_ hreads
    rw [hsome, hnone]
    exact tally_zeros_proto _

/-! ### The headers that can be read -/

/-- The report tells the columns of a header apart exactly when their trimmed names are distinct
and none of them is `__proto__`. Assumes: the header is not empty. -/
theorem readsColumns_iff (parser : Parser) (header : Record) (hheader : header ≠ []) :
    ReadsColumns parser header ↔
      (reportedNames header).Nodup ∧ protoName ∉ reportedNames header := by
  constructor
  · exact reportedNames_of_readsColumns parser hheader
  · rintro ⟨hnodup, hproto⟩
    have hlength : (reportedNames header).length = header.length := by simp [reportedNames]
    have hreport : ∀ (rows : List Record) (result : ValidateResult),
        (∀ record ∈ rows, record ≠ []) →
        validateCsv parser {} (header :: rows) = .ok result →
        result.report.columns = reportedNames header ∧
        result.report.emptyByColumn = ((textsOf rows).flatMap
          (blankNames (reportedNames header))).foldl tally (zeros (reportedNames header)) := by
      intro rows result hrows hresult
      rw [validateCsv_exact parser {} (List.forall_mem_cons.2 ⟨hheader, hrows⟩)] at hresult
      have hcolumns : columnsOf {} (textsOf (header :: rows)) = reportedNames header := by
        simp [columnsOf, textsOf, reportedNames]
      split_ifs at hresult
      cases hresult
      refine ⟨hcolumns, ?_⟩
      show (exactReport {} (textsOf (header :: rows))).emptyByColumn = _
      rw [exactReport, hcolumns]
      rfl
    constructor
    · refine ⟨fun report position ↦
        (report.emptyByColumn.get (report.columns.getD position "")).getD 0, ?_⟩
      intro rows result hrows hresult position hposition
      obtain ⟨hcolumns, hempty⟩ := hreport rows result hrows hresult
      have hbound : position < (reportedNames header).length := hlength ▸ hposition
      have hmem : (reportedNames header)[position] ∈ reportedNames header :=
        List.getElem_mem hbound
      have hname : (reportedNames header)[position] ≠ protoName := fun h ↦ hproto (h ▸ hmem)
      show (result.report.emptyByColumn.get (result.report.columns.getD position "")).getD 0 = _
      rw [hcolumns, List.getD_eq_getElem?_getD, List.getElem?_eq_getElem hbound,
        Option.getD_some, hempty, get_foldl_tally hname _ (get_zeros hname hmem), Nat.zero_add,
        Option.getD_some]
      exact count_flatMap_blankNames hnodup _ hbound
    · intro rows result cut hrows hresult hcut
      have hpos : 0 < header.length := List.length_pos_iff.2 hheader
      have hcutRows : ∀ record ∈ rows.map (List.take header.length), record ≠ [] := by
        intro record hrecord
        obtain ⟨whole, hwhole, rfl⟩ := List.mem_map.1 hrecord
        simp [hrows whole hwhole, hpos.ne']
      obtain ⟨-, hempty⟩ := hreport rows result hrows hresult
      obtain ⟨-, hemptyCut⟩ := hreport _ cut hcutRows hcut
      rw [hempty, hemptyCut]
      congr 1
      simp only [textsOf, List.flatMap_map, List.map_take, ← hlength, blankNames_take]

theorem readsColumns_cities :
    ReadsColumns .plain [⟨"city", false⟩, ⟨" temp", false⟩] :=
  (readsColumns_iff .plain _ (by decide)).2 (by decide)

/-- Two columns of one name share a count. -/
theorem not_readsColumns_repeated : ¬ ReadsColumns .plain [⟨"a", false⟩, ⟨"a", false⟩] := fun h ↦
  absurd (reportedNames_of_readsColumns .plain (by decide) h).1 (by decide)

end FileForge.Csv.EmptyValues
