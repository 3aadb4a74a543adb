import FileForge.Frontend.Api

/-!
# Choosing what to do

`frontend/src/components/OperationPicker.tsx`. The picker keeps the texts of all its fields, offers
the operations of the file's kind, and builds the options of the chosen one when the user runs it.
The page gives the picker the kind for its key, so a file of another kind gets a new picker.

`processors_read` follows the options to the worker, through the text of the request and the text in
the queue: for every text in the fields it says which options the processor makes of them, and so
also which it refuses.
-/

set_option autoImplicit false
set_option relaxedAutoImplicit false

namespace FileForge.Frontend.OperationPicker

open Foundation.JsonValue Foundation.EcmaNumber Foundation.EcmaText Foundation.JsonTrip
open Foundation.EcmaObject (protoName)
open Shared.Contract Jobs.JobOptions Csv Frontend.Api

/-! ### The form -/

/-- The texts of the fields. The format is chosen from a list. -/
structure Form where
  width : String := "800"
  format : Format := .webp
  size : String := "256"
  columns : String := ""

/-- A number as `JSON.stringify` writes it. -/
def numberJson : JsNumber → Json
  | .finite double => .number double.value
  | _ => .null

/-- `columns.split(',').map((name) => name.trim()).filter(Boolean)` -/
def columnNames (columns : String) : List String :=
  ((columns.toList.splitOn ',').map fun name ↦ trim (String.ofList name)).filter (· ≠ "")

/-- `buildOptions` -/
def buildOptions (form : Form) : Operation → Fields
  | .imageResize => [("width", numberJson (ofText form.width))]
  | .imageConvert => [("format", .string form.format.text)]
  | .imageThumbnail => [("size", numberJson (ofText form.size))]
  | .csvTransform =>
    if trim form.columns ≠ "" then
      [("columns", .array ((columnNames form.columns).map .string))]
    else []
  | .csvValidate => []

/-! ### The trip -/

/-- A whole number between two bounds, as a text says it. -/
def wholeIn (low high : ℕ) (text : String) : Option (Bounded low high) :=
  match ofText text with
  | .finite double =>
    if h : (low ≤ double.value.num.toNat ∧ double.value.num.toNat ≤ high) ∧
        double.value.den = 1 ∧ 0 ≤ double.value.num then
      some ⟨double.value.num.toNat, h.1.1, h.1.2⟩
    else none
  | _ => none

@[simp] theorem settled_numberJson (number : JsNumber) :
    settled (numberJson number) = numberJson number := by
  cases number with
  | finite double => exact settledNumber_of_representable double.representable
  | nan => rfl
  | posInf => rfl
  | negInf => rfl

theorem carriedOptions_singleton {name : String} (hname : name ≠ protoName) (value : Json) :
    carriedOptions [(name, value)] = [(name, settled value)] := by
  rw [carriedOptions, settledFields, settledFields, settledField,
    List.filter_cons_of_pos (by simpa using hname), List.filter_nil]

/-- What is no number is `null`, which counts as zero. Assumes: a lower bound above zero. -/
theorem readBounded_numberJson {low high : ℕ} (hlow : 0 < low) (text : String) :
    readBounded low high (numberJson (ofText text)) = wholeIn low high text := by
  have hzero : readBounded low high .null = none := by
    have hnumber : coercedNumber .null = .finite (Double.ofInt 0 (by norm_num)) :=
      ofRat_intCast (n := 0) (by norm_num)
    rw [readBounded, hnumber]
    refine dif_neg ?_
    rintro ⟨-, hle, -⟩
    have hnone : ((Double.ofInt 0 (by norm_num)).value).num.toNat = 0 := rfl
    omega
  rw [wholeIn]
  cases ofText text with
  | finite double =>
    have hnumber : coercedNumber (.number double.value) = .finite double := ofRat_value double
    rw [numberJson, readBounded, hnumber]
    dsimp only
    by_cases h : (low ≤ double.value.num.toNat ∧ double.value.num.toNat ≤ high) ∧
        double.value.den = 1 ∧ 0 ≤ double.value.num
    · rw [dif_pos h, dif_pos ⟨h.2.1, h.1.1, h.1.2, h.2.2⟩]
    · rw [dif_neg h, dif_neg]
      rintro ⟨hden, hlow, hhigh, hsign⟩
      exact h ⟨⟨hlow, hhigh⟩, hden, hsign⟩
  | nan => exact hzero
  | posInf => exact hzero
  | negInf => exact hzero

theorem resize_reads (text : String) :
    ResizeOptionsSchema.safeParse (carriedOptions [("width", numberJson (ofText text))]) =
      (wholeIn 1 maxDimension text).map fun width ↦ {
        width := some width, height := none, fit := .inside, withoutEnlargement := true
        side := Or.inl rfl } := by
  rw [carriedOptions_singleton (by decide), settled_numberJson, ResizeOptionsSchema.safeParse]
  have hwidth : optional (readBounded 1 maxDimension)
      ([("width", numberJson (ofText text))].lookup "width") =
        (wholeIn 1 maxDimension text).map some := by
    show (readBounded 1 maxDimension (numberJson (ofText text))).map some = _
    rw [readBounded_numberJson (by decide)]
  rw [hwidth]
  cases wholeIn 1 maxDimension text with
  | none => rfl
  | some width => rfl

theorem convert_reads (format : Format) :
    ConvertOptionsSchema.safeParse (carriedOptions [("format", .string format.text)]) =
      some { format := format, quality := ⟨82, by decide, by decide⟩ } := by
  rw [carriedOptions_singleton (by decide), settled_string]
  cases format <;> rfl

theorem thumbnail_reads (text : String) :
    ThumbnailOptionsSchema.safeParse (carriedOptions [("size", numberJson (ofText text))]) =
      (wholeIn 16 maxThumbnail text).map fun size ↦ { size := size } := by
  rw [carriedOptions_singleton (by decide), settled_numberJson, ThumbnailOptionsSchema.safeParse]
  have hsize : withDefault ⟨256, by decide, by decide⟩ (readBounded 16 maxThumbnail)
      ([("size", numberJson (ofText text))].lookup "size") = wholeIn 16 maxThumbnail text :=
    readBounded_numberJson (by decide) text
  rw [hsize]
  cases wholeIn 16 maxThumbnail text with
  | none => rfl
  | some size => rfl

theorem readTexts_strings (texts : List String) :
    readTexts (.array (texts.map .string)) = some texts := by
  show (texts.map Json.string).mapM Json.asString = some texts
  induction texts with
  | nil => rfl
  | cons text rest ih =>
    rw [List.map_cons, List.mapM_cons, ih]
    rfl

theorem settled_strings (texts : List String) :
    settled (.array (texts.map .string)) = .array (texts.map .string) := by
  rw [settled, settledElements_eq, List.map_map]
  rfl

theorem transform_reads (columns : List String) :
    TransformOptionsSchema.safeParse
        (carriedOptions [("columns", .array (columns.map .string))]) =
      some { delimiter := comma, options := {
        hasHeader := true, columns := columns, trim := true, dropEmptyRows := true } } := by
  rw [carriedOptions_singleton (by decide), settled_strings, TransformOptionsSchema.safeParse]
  have hcolumns : withDefault [] readTexts
      ([("columns", Json.array (columns.map .string))].lookup "columns") = some columns :=
    readTexts_strings columns
  rw [hcolumns]
  rfl

/-- What the processors make of a form, whatever the fields say. A width or a size is taken when its
text is a whole number within the bounds of the processor; an empty list of columns and no list mean
the same. -/
theorem processors_read (form : Form) :
    (ResizeOptionsSchema.safeParse (carriedOptions (buildOptions form .imageResize)) =
        (wholeIn 1 maxDimension form.width).map fun width ↦ {
          width := some width, height := none, fit := .inside, withoutEnlargement := true
          side := Or.inl rfl }) ∧
      ConvertOptionsSchema.safeParse (carriedOptions (buildOptions form .imageConvert)) =
        some { format := form.format, quality := ⟨82, by decide, by decide⟩ } ∧
      (ThumbnailOptionsSchema.safeParse (carriedOptions (buildOptions form .imageThumbnail)) =
        (wholeIn 16 maxThumbnail form.size).map fun size ↦ { size := size }) ∧
      ValidateOptionsSchema.safeParse (carriedOptions (buildOptions form .csvValidate)) =
        some { delimiter := comma, options := { hasHeader := true } } ∧
      TransformOptionsSchema.safeParse (carriedOptions (buildOptions form .csvTransform)) =
        some { delimiter := comma, options := {
          hasHeader := true, columns := if trim form.columns ≠ "" then columnNames form.columns
            else [], trim := true, dropEmptyRows := true } } := by
  refine ⟨resize_reads form.width, convert_reads form.format, thumbnail_reads form.size, rfl, ?_⟩
  rw [buildOptions]
  split_ifs with hcolumns
  · exact transform_reads _
  · rfl

end FileForge.Frontend.OperationPicker
