import Mathlib.Data.List.Zip
import Mathlib.Data.List.Nodup
import Mathlib.Tactic.Common

/-!
# Tables

A header and rows of the same length, with the operations that a rewriting of a table is made of:
every cell is changed (`bimap`), columns are chosen by name (`select`), rows are left out
(`keepRows`). To choose the columns of the header itself changes nothing when the header repeats no
name (`select_self`).
-/

set_option autoImplicit false
set_option relaxedAutoImplicit false

namespace FileForge.Foundation.Tables

structure Table (α : Type) where
  header : List α
  rows : List (List α)
  consistent : ∀ row ∈ rows, row.length = header.length

variable {α β : Type}

/-- The header and then the rows. -/
def Table.lines (table : Table α) : List (List α) := table.header :: table.rows

/-- The first function is for the cells of the header and the second for those of the rows. -/
def Table.bimap (f g : α → β) (table : Table α) : Table β where
  header := table.header.map f
  rows := table.rows.map (List.map g)
  consistent := by
    intro row hrow
    obtain ⟨cells, hcells, rfl⟩ := List.mem_map.1 hrow
    simpa using table.consistent cells hcells

def Table.keepRows (keeps : List α → Bool) (table : Table α) : Table α where
  header := table.header
  rows := table.rows.filter keeps
  consistent := fun row hrow ↦ table.consistent row (List.mem_of_mem_filter hrow)

/-- The value of a row under a name, which is the last one where the header repeats the name. -/
def valueOf (header row : List String) (name : String) : Option String :=
  (header.zip row).reverse.lookup name

/-- The values of a row under some names, empty under a name that the header does not hold. -/
def valuesOf (header names row : List String) : List String :=
  names.map fun name ↦ (valueOf header row name).getD ""

def Table.select (names : List String) (table : Table String) : Table String where
  header := names
  rows := table.rows.map (valuesOf table.header names)
  consistent := by
    intro row hrow
    obtain ⟨cells, -, rfl⟩ := List.mem_map.1 hrow
    simp [valuesOf]

/-! ### Values under a header -/

theorem lookup_map_snd (f : α → β) (entries : List (String × α)) (name : String) :
    (entries.map fun entry ↦ (entry.1, f entry.2)).lookup name = (entries.lookup name).map f := by
  induction entries with
  | nil => rfl
  | cons entry rest ih =>
    rw [List.map_cons, List.lookup_cons, List.lookup_cons, ih]
    by_cases heq : (name == entry.1) = true
    · simp [heq]
    · simp [Bool.eq_false_iff.2 heq]

theorem valueOf_map (f : String → String) (header row : List String) (name : String) :
    valueOf header (row.map f) name = (valueOf header row name).map f := by
  have hzip : header.zip (row.map f) =
      (header.zip row).map fun entry ↦ (entry.1, f entry.2) := by
    rw [List.zip_map_right]
    rfl
  rw [valueOf, valueOf, hzip, ← List.map_reverse, lookup_map_snd]

/-- Assumes: no name has two entries. -/
theorem lookup_of_mem {entries : List (String × α)} (hnodup : (entries.map Prod.fst).Nodup)
    {name : String} {value : α} (hmem : (name, value) ∈ entries) :
    entries.lookup name = some value := by
  induction entries with
  | nil => exact absurd hmem List.not_mem_nil
  | cons entry rest ih =>
    rw [List.map_cons, List.nodup_cons] at hnodup
    rw [List.lookup_cons]
    rcases List.mem_cons.1 hmem with heq | hrest
    · simp [← heq]
    · have hne : ¬ name = entry.1 := fun h ↦
        hnodup.1 (h ▸ List.mem_map_of_mem (f := Prod.fst) hrest)
      rw [beq_eq_false_iff_ne.2 hne]
      exact ih hnodup.2 hrest

/-- Assumes: the header repeats no name, and the row has its length. -/
theorem valuesOf_header {header row : List String} (hnodup : header.Nodup)
    (hlength : row.length = header.length) : valuesOf header header row = row := by
  apply List.ext_getElem
  · simp [valuesOf, hlength]
  · intro index hleft hright
    have hindex : index < header.length := by simpa [valuesOf] using hleft
    have hzip : index < (header.zip row).length := by
      rw [List.length_zip]
      exact lt_min hindex hright
    have hmem : (header[index], row[index]) ∈ (header.zip row).reverse := by
      rw [List.mem_reverse, ← List.getElem_zip (h := hzip)]
      exact List.getElem_mem hzip
    have hnames : ((header.zip row).reverse.map Prod.fst).Nodup := by
      rw [List.map_reverse, List.nodup_reverse, List.map_fst_zip (le_of_eq hlength.symm)]
      exact hnodup
    simp only [valuesOf, List.getElem_map, valueOf]
    rw [lookup_of_mem hnames hmem, Option.getD_some]

/-- Assumes: the header repeats no name. -/
theorem Table.select_self {table : Table String} (hnodup : table.header.Nodup) :
    table.select table.header = table := by
  have hrows : table.rows.map (valuesOf table.header table.header) = table.rows := by
    conv_rhs => rw [← List.map_id table.rows]
    exact List.map_congr_left fun row hrow ↦ valuesOf_header hnodup (table.consistent row hrow)
  rcases table with ⟨header, rows, hconsistent⟩
  simp only [Table.select] at hrows ⊢
  simp only [hrows]

end FileForge.Foundation.Tables
