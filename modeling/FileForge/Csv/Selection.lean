import FileForge.Csv.Columns

/-!
# Requests that cannot be met

`reshape` checks a request inside of its work on a row: it looks at the keys of the first row, and
it never looks at all when there is none. `RefusesUnsatisfiable` is what the check is for, a verdict
by the header and the request alone, and `refusesUnsatisfiable_iff` says when the job keeps to it. A
document of a header and no row completes, whatever is asked of it; a name of the header that the
parser makes no property of is refused; and a request that shares a name with the header fails all
the same where the stringifier finds what it cannot write under another of its names.

The rows of a document may have any lengths here. The job completes when the parser comes to the end
of the document and the other stages come to the end of the rows (`exists_ok_iff`, `Passes`), and
that the parser does says that the rows are as long as the header.
-/

set_option autoImplicit false
set_option relaxedAutoImplicit false

namespace FileForge.Csv.Selection

open Foundation Foundation.EcmaObject Foundation.Tables Jobs.Errors Streams Transform Columns

/-! ### Documents of rows of any lengths -/

/-- All rows are as long as the header. -/
def Consistent (header : Record) (rows : List Record) : Prop :=
  ∀ row ∈ rows, row.length = header.length

instance (header : Record) (rows : List Record) : Decidable (Consistent header rows) :=
  inferInstanceAs (Decidable (∀ row ∈ rows, row.length = header.length))

/-- The names of a header, as the parser of a rewriting reads them. -/
def headerNames (parser : Parser) (options : TransformOptions) (header : Record) : List String :=
  header.map (parser.read options.trim)

/-- Every failure of the job is by the catch around its pipeline. -/
theorem transformCsv_error {parser : Parser} {stringifier : Stringifier}
    {options : TransformOptions} {records : List Record} {error : JobError}
    (herror : transformCsv parser stringifier options records = .error error) :
    ∃ reason, error = .invalidCsv reason := by
  simp only [transformCsv] at herror
  split at herror
  · exact ⟨_, (Except.error.inj herror).symm⟩
  · next failure _ _ =>
    obtain rfl := Except.error.inj herror
    cases failure with
    | invalidCsv reason => exact ⟨reason, rfl⟩
    | thrown text => exact ⟨"unparseable", rfl⟩
    | missingFile fileId => exact ⟨_, rfl⟩
    | invalidImage reason => exact ⟨_, rfl⟩
    | invalidOptions reason => exact ⟨_, rfl⟩
    | unrecoverable message => exact ⟨_, rfl⟩
    | error message => exact ⟨_, rfl⟩
  · cases herror

/-- The parser fails at a line that is not as long as the first. -/
theorem parse_failure_eq_none_iff (parser : Parser) {options : TransformOptions}
    {records rows : List Record} {header : Record}
    (hlines : parser.lines options.trim records = header :: rows) :
    (parser.parse (parseOptions options) records).failure = none ↔ Consistent header rows := by
  simp only [Parser.parse, parseOptions, if_true, hlines, List.map_cons, Option.map_eq_none_iff,
    List.find?_eq_none, List.mem_map, Consistent]
  constructor
  · intro hall row hrow
    simpa using hall _ ⟨row, hrow, rfl⟩
  · rintro hall _ ⟨row, hrow, rfl⟩
    simpa using hall row hrow

/-! ### The stages after the parser -/

/-- `reshape` and the stringifier come to the end of some rows. -/
def Passes (stringifier : Stringifier) (options : TransformOptions) (rows : List Row) : Prop :=
  (reshapeRows options {} rows).2.failure = none ∧
    ∃ lines, stringifier.write options.hasHeader (listedColumns options)
      (reshapeRows options {} rows).2.items = .ok lines

/-- The job completes exactly when all of its stages come to their end. -/
theorem exists_ok_iff (parser : Parser) (stringifier : Stringifier) (options : TransformOptions)
    (records : List Record) :
    (∃ result, transformCsv parser stringifier options records = .ok result) ↔
      (parser.parse (parseOptions options) records).failure = none ∧
      Passes stringifier options (parser.parse (parseOptions options) records).items := by
  simp only [transformCsv, reshape, Passes]
  cases (parser.parse (parseOptions options) records).failure <;>
    cases (reshapeRows options {} (parser.parse (parseOptions options) records).items).2.failure <;>
    cases stringifier.write options.hasHeader (listedColumns options)
      (reshapeRows options {} (parser.parse (parseOptions options) records).items).2.items <;>
    simp

/-- The objects that are handed on of some rows, under the selection of a request. -/
def handedOf (parser : Parser) (options : TransformOptions) (header : Record)
    (rows : List Record) : List (JsObject String) :=
  let names := headerNames parser options header
  let selected := options.columns.filter fun name ↦ (keysOf parser.creation names).contains name
  ((rows.map fun cells ↦ parser.rowObject names (cells.map (parser.read options.trim))).filter
    (keepsObject options selected)).map (outputOf options selected)

/-- Some requested name is a key of the rows, and what is handed on of them can be written under all
requested names. -/
structure MeetsRequest (parser : Parser) (stringifier : Stringifier) (options : TransformOptions)
    (header : Record) (rows : List Record) : Prop where
  shares : ∃ name ∈ options.columns,
    name ∈ headerNames parser options header ∧ ¬ Swallowed parser.creation name
  writes : ∀ record ∈ handedOf parser options header rows,
    stringifier.Writes options.columns record

/-- The table of a document with consistent rows. -/
def tableOf {header : Record} {rows : List Record} (hconsistent : Consistent header rows) :
    Table Cell where
  header := header
  rows := rows
  consistent := hconsistent

/-- The objects of rows that are as long as the header come through when there is none, nothing is
requested, or the request is met. Assumes: the rows have a header and are within the limit. -/
theorem passes_iff (parser : Parser) (stringifier : Stringifier) {options : TransformOptions}
    {header : Record} {rows : List Record} (hheader : options.hasHeader = true)
    (hconsistent : Consistent header rows) (hlimit : rows.length ≤ maxRows) :
    Passes stringifier options ((objectsOf parser options (tableOf hconsistent)).map .object) ↔
      rows = [] ∨ options.columns = [] ∨
        MeetsRequest parser stringifier options header rows := by
  have hkeys : ∀ object ∈ objectsOf parser options (tableOf hconsistent),
      object.keys = keysOf parser.creation (headerNames parser options header) :=
    fun object hobject ↦ keys_objectsOf parser options _ hobject
  have hrun : ∀ selected, selectColumns options
      (keysOf parser.creation (headerNames parser options header)) = .ok selected →
      (reshapeRows options {}
          ((objectsOf parser options (tableOf hconsistent)).map .object)).2 =
        { items := (pushedOf parser options (tableOf hconsistent) selected).map .object
          failure := none } := by
    intro selected hselect
    rw [reshapeRows_objects _ _ (by simpa [objectsOf, tableOf] using hlimit)
      (fun object hobject ↦ by rw [hkeys object hobject, hselect]) (.inl rfl)]
    rfl
  by_cases hrows : rows = []
  · subst hrows
    refine iff_of_true ⟨rfl, ?_⟩ (.inl rfl)
    exact stringifier.exists_write_nil options.hasHeader (listedColumns options)
  by_cases hcolumns : options.columns = []
  · refine iff_of_true ?_ (.inr (.inl hcolumns))
    rw [Passes, hrun _ (selectColumns_nil hcolumns _), hheader,
      write_pushed parser stringifier hcolumns]
    exact ⟨rfl, _, rfl⟩
  simp only [hrows, hcolumns, false_or]
  by_cases hshares : ∃ name ∈ options.columns,
    name ∈ keysOf parser.creation (headerNames parser options header)
  · obtain ⟨name, hname, hkey⟩ := hshares
    have hlisted : listedColumns options = some options.columns :=
      if_pos (List.length_pos_iff.2 hcolumns)
    rw [Passes, hrun _ (selectColumns_requested hname hkey), hheader, hlisted,
      stringifier.exists_write_listed_iff]
    constructor
    · rintro ⟨-, hwrites⟩
      exact ⟨⟨name, hname, ((mem_keysOf _ _ _).1 hkey).symm⟩, hwrites⟩
    · exact fun hmeets ↦ ⟨rfl, hmeets.writes⟩
  · refine iff_of_false ?_ fun hmeets ↦ ?_
    · push Not at hshares
      obtain ⟨first, rest, hobjects⟩ :
          ∃ first rest, objectsOf parser options (tableOf hconsistent) = first :: rest :=
        List.exists_cons_of_ne_nil (by simpa [objectsOf, tableOf] using hrows)
      have hselect := selectColumns_refused hcolumns hshares
      rw [← hkeys first (hobjects ▸ List.mem_cons_self)] at hselect
      have hfirst := reshapeRow_refused hselect
      rintro ⟨hfailure, -⟩
      rw [hobjects, List.map_cons, reshapeRows, hfirst] at hfailure
      cases hfailure
    · obtain ⟨name, hname, hmem, hkept⟩ := hmeets.shares
      exact hshares ⟨name, hname, (mem_keysOf _ _ _).2 ⟨hkept, hmem⟩⟩

/-! ### The verdict -/

/-- A request of which the header holds no name is refused, and any other is met on rows that are
consistent and within the limit. -/
structure RefusesUnsatisfiable (parser : Parser) (stringifier : Stringifier)
    (options : TransformOptions) (records : List Record) (header : Record)
    (rows : List Record) : Prop where
  refuses : (∀ name ∈ options.columns, name ∉ headerNames parser options header) →
    ∃ reason, transformCsv parser stringifier options records = .error (.invalidCsv reason)
  completes : (∃ name ∈ options.columns, name ∈ headerNames parser options header) →
    Consistent header rows → rows.length ≤ maxRows →
    ∃ result, transformCsv parser stringifier options records = .ok result

/-- A document of a header is rewritten to one without rows, whatever is requested. -/
theorem transformCsv_header_only (parser : Parser) (stringifier : Stringifier)
    {options : TransformOptions} {records : List Record} {header : Record}
    (hheader : options.hasHeader = true)
    (hlines : parser.lines options.trim records = [header]) :
    ∃ result, transformCsv parser stringifier options records = .ok result := by
  have hparse : parser.parse (parseOptions options) records = { items := [], failure := none } := by
    simp only [Parser.parse, parseOptions, hheader, if_true, hlines]
    rfl
  rw [exists_ok_iff, hparse]
  exact ⟨rfl, rfl, stringifier.exists_write_nil options.hasHeader (listedColumns options)⟩

/-- What the job completes on. Assumes: the document has a header, its rows are within the limit, and
something is requested. -/
theorem completes_iff (parser : Parser) (stringifier : Stringifier) {options : TransformOptions}
    {records rows : List Record} {header : Record} (hheader : options.hasHeader = true)
    (hlines : parser.lines options.trim records = header :: rows)
    (hlimit : rows.length ≤ maxRows) :
    (∃ result, transformCsv parser stringifier options records = .ok result) ↔
      Consistent header rows ∧ (rows = [] ∨ options.columns = [] ∨
        MeetsRequest parser stringifier options header rows) := by
  rw [exists_ok_iff, parse_failure_eq_none_iff parser hlines]
  refine and_congr_right fun hconsistent ↦ ?_
  rw [@parse_table parser options records (tableOf hconsistent) hheader hlines]
  exact passes_iff parser stringifier hheader hconsistent hlimit

/-- The verdict is by header and request alone exactly when it is not left to a missing row, to a
name that the parser makes no property of or to what the stringifier finds in a row: with no row
some requested name is in the header, and with rows to rewrite a request that shares a name with the
header is met on them. Assumes: the document has a header, and something is requested. -/
theorem refusesUnsatisfiable_iff (parser : Parser) (stringifier : Stringifier)
    {options : TransformOptions} {records rows : List Record} {header : Record}
    (hheader : options.hasHeader = true)
    (hlines : parser.lines options.trim records = header :: rows)
    (hrequest : options.columns ≠ []) :
    RefusesUnsatisfiable parser stringifier options records header rows ↔
      (rows = [] → ∃ name ∈ options.columns, name ∈ headerNames parser options header) ∧
      (rows ≠ [] → Consistent header rows → rows.length ≤ maxRows →
        (∃ name ∈ options.columns, name ∈ headerNames parser options header) →
        MeetsRequest parser stringifier options header rows) := by
  constructor
  · intro hverdict
    constructor
    · intro hrows
      by_contra hnone
      push Not at hnone
      obtain ⟨reason, hfailed⟩ := hverdict.refuses hnone
      obtain ⟨result, hresult⟩ :=
        transformCsv_header_only parser stringifier hheader (hrows ▸ hlines)
      rw [hresult] at hfailed
      cases hfailed
    · intro hrows hconsistent hlimit hshared
      obtain ⟨-, hnone | hnothing | hmeets⟩ :=
        (completes_iff parser stringifier hheader hlines hlimit).1
          (hverdict.completes hshared hconsistent hlimit)
      · exact absurd hnone hrows
      · exact absurd hnothing hrequest
      · exact hmeets
  · rintro ⟨hempty, hfilled⟩
    constructor
    · intro hnone
      cases hrun : transformCsv parser stringifier options records with
      | error error =>
        obtain ⟨reason, rfl⟩ := transformCsv_error hrun
        exact ⟨reason, rfl⟩
      | ok result =>
        have hconsistent : Consistent header rows := by
          rw [← parse_failure_eq_none_iff parser hlines]
          exact ((exists_ok_iff parser stringifier options records).1 ⟨result, hrun⟩).1
        have hrows : rows ≠ [] := fun h ↦ by
          obtain ⟨name, hname, hmem⟩ := hempty h
          exact hnone name hname hmem
        have hkeys : ∀ name ∈ options.columns,
            name ∉ keysOf parser.creation (headerNames parser options header) :=
          fun name hname hkey ↦ hnone name hname ((mem_keysOf _ _ _).1 hkey).2
        rw [@transformCsv_refused parser stringifier options records (tableOf hconsistent) _
          hheader hlines hrows (selectColumns_refused hrequest hkeys)] at hrun
        cases hrun
    · intro hshared hconsistent hlimit
      refine (completes_iff parser stringifier hheader hlines hlimit).2 ⟨hconsistent, ?_⟩
      by_cases hrows : rows = []
      · exact .inl hrows
      · exact .inr (.inr (hfilled hrows hconsistent hlimit hshared))

theorem refusesUnsatisfiable_stations :
    RefusesUnsatisfiable .plain .plain { columns := ["nope"] } stations.lines stations.header
        stations.rows ∧
      RefusesUnsatisfiable .plain .plain { columns := ["nope", "city"] } stations.lines
        stations.header stations.rows := by
  constructor
  · exact (refusesUnsatisfiable_iff .plain .plain rfl rfl (by decide)).2
      ⟨fun hnone ↦ absurd hnone (by decide), fun _ _ _ hshared ↦ absurd hshared (by decide)⟩
  · exact (refusesUnsatisfiable_iff .plain .plain rfl rfl (by decide)).2
      ⟨fun hnone ↦ absurd hnone (by decide), fun _ _ _ _ ↦
        ⟨⟨"city", by decide, by decide, by decide⟩, fun _ _ _ _ _ ↦ ⟨"", rfl⟩⟩⟩

/-- A stringifier that refuses a function that every object inherits. -/
def inheriting : Stringifier where
  beyond _ name := if name = "toString" then .error "Invalid Casting Value" else .ok ""

example : transformCsv .plain inheriting { columns := ["city", "toString"] } stations.lines =
    .error (.invalidCsv "Invalid Casting Value") := by rfl

/-- Without a row nothing is refused. -/
theorem not_refusesUnsatisfiable_header_only :
    ¬ RefusesUnsatisfiable .plain .plain { columns := ["nope"] } [stations.header]
      stations.header [] := by
  intro hverdict
  obtain ⟨reason, hfailed⟩ := hverdict.refuses (by decide)
  obtain ⟨result, hresult⟩ := @transformCsv_header_only .plain .plain { columns := ["nope"] }
    [stations.header] stations.header rfl rfl
  rw [hresult] at hfailed
  cases hfailed

end FileForge.Csv.Selection
