import FileForge.Csv.Validate
import FileForge.Foundation.EcmaNumber
import FileForge.Shared.Contract

/-!
# What a job carries

`JobPayloadSchema` of `src/jobs/queue.ts` and the options that the processors of
`src/jobs/image.ts` and `src/jobs/csv.ts` make of a payload. The options come as a JSON object, each
schema reads its own fields of it and passes over the others, and what it accepts is a structure
that carries its bounds: a size out of range, or a resize without a side, is no value of its type.

`z.coerce.number()` is `Number(value)` on the JSON value (`coercedNumber`), and
`z.coerce.boolean()` its truth value (`truthy`). The messages of refusals are the package's.
-/

set_option autoImplicit false
set_option relaxedAutoImplicit false

namespace FileForge.Jobs.JobOptions

open Foundation.JsonValue Foundation.EcmaNumber Foundation.EcmaText Shared.Contract Csv

/-- The fields of an options object. -/
abbrev Fields := List (String × Json)

/-! ### The payload -/

structure JobPayload where
  fileId : String
  operation : Operation
  /-- Operation-specific settings. -/
  options : Fields

/-- `OperationSchema.safeParse`. -/
def OperationSchema.safeParse (text : String) : Option Operation :=
  [Operation.imageResize, .imageConvert, .imageThumbnail, .csvValidate, .csvTransform].find?
    fun operation ↦ operation.text == text

/-- `z.record(z.string(), z.unknown()).default({})`. -/
def readOptions : Option Json → Option Fields
  | none => some []
  | some (.object fields) => some fields
  | some _ => none

/-- `JobPayloadSchema.safeParse`. -/
def JobPayloadSchema.safeParse (data : Json) : Option JobPayload := do
  let fileId ← (← data.get "fileId").asString
  let operation ← OperationSchema.safeParse (← (← data.get "operation").asString)
  let options ← readOptions (data.get "options")
  return { fileId := fileId, operation := operation, options := options }

@[simp] theorem OperationSchema.safeParse_text (operation : Operation) :
    OperationSchema.safeParse operation.text = some operation := by
  cases operation <;> rfl

/-! ### Coercions -/

/-- `Number` of the text that `String` makes of an array with this element, which is the text of the
element; `null` has the empty one. -/
def joinedNumber : Json → JsNumber
  | .null => ofRat 0
  | .bool _ => .nan
  | .number value => ofRat value
  | .string text => ofText text
  | .array [] => ofRat 0
  | .array [element] => joinedNumber element
  | .array _ => .nan
  | .object _ => .nan

/-- `Number(value)`. The text of an array of several elements has a comma and is no number. -/
def coercedNumber : Json → JsNumber
  | .null => ofRat 0
  | .bool value => if value then ofRat 1 else ofRat 0
  | value => joinedNumber value

/-- `Boolean(value)`. -/
def truthy : Json → Bool
  | .null => false
  | .bool value => value
  | .number value => value ≠ 0
  | .string text => text ≠ ""
  | .array _ | .object _ => true

/-! ### Fields -/

/-- A whole number within bounds. -/
structure Bounded (low high : ℕ) where
  value : ℕ
  low_le : low ≤ value
  le_high : value ≤ high

/-- `z.coerce.number().int().min(low).max(high)`. -/
def readBounded (low high : ℕ) (value : Json) : Option (Bounded low high) :=
  match coercedNumber value with
  | .finite double =>
    if h : double.value.den = 1 ∧ low ≤ double.value.num.toNat ∧
        double.value.num.toNat ≤ high ∧ 0 ≤ double.value.num then
      some ⟨double.value.num.toNat, h.2.1, h.2.2.1⟩
    else none
  | _ => none

variable {α : Type}

/-- `.optional()` -/
def optional (read : Json → Option α) : Option Json → Option (Option α)
  | none => some none
  | some value => (read value).map some

/-- `.default(fallback)` -/
def withDefault (fallback : α) (read : Json → Option α) : Option Json → Option α
  | none => some fallback
  | some value => read value

/-- `z.coerce.boolean()` -/
def readBoolean (value : Json) : Option Bool := some (truthy value)

/-- `z.enum` of the texts of some values. -/
def readEnum (values : List α) (text : α → String) (value : Json) : Option α := do
  let written ← value.asString
  values.find? fun candidate ↦ text candidate == written

/-! ### Options of the image operations -/

def maxDimension : ℕ := 8000

def maxThumbnail : ℕ := 512

/-- How the image fills the requested box. -/
inductive Fit
  | cover
  | contain
  | fill
  | inside
  | outside
  deriving DecidableEq, Repr

def Fit.text : Fit → String
  | .cover => "cover"
  | .contain => "contain"
  | .fill => "fill"
  | .inside => "inside"
  | .outside => "outside"

structure ResizeOptions where
  width : Option (Bounded 1 maxDimension)
  height : Option (Bounded 1 maxDimension)
  fit : Fit
  withoutEnlargement : Bool
  /-- `refine`: at least one of width or height. -/
  side : width.isSome ∨ height.isSome

/-- `ResizeOptionsSchema.safeParse`. -/
def ResizeOptionsSchema.safeParse (fields : Fields) : Option ResizeOptions := do
  let width ← optional (readBounded 1 maxDimension) (fields.lookup "width")
  let height ← optional (readBounded 1 maxDimension) (fields.lookup "height")
  let fit ← withDefault .inside
    (readEnum [.cover, .contain, .fill, .inside, .outside] Fit.text) (fields.lookup "fit")
  let withoutEnlargement ← withDefault true readBoolean (fields.lookup "withoutEnlargement")
  if h : width.isSome ∨ height.isSome then
    some {
      width := width, height := height, fit := fit, withoutEnlargement := withoutEnlargement
      side := h }
  else none

/-- The formats of a conversion. -/
inductive Format
  | jpeg
  | png
  | webp
  | avif
  deriving DecidableEq, Repr

def Format.text : Format → String
  | .jpeg => "jpeg"
  | .png => "png"
  | .webp => "webp"
  | .avif => "avif"

structure ConvertOptions where
  format : Format
  quality : Bounded 1 100

/-- `ConvertOptionsSchema.safeParse`. -/
def ConvertOptionsSchema.safeParse (fields : Fields) : Option ConvertOptions := do
  let format ← readEnum [.jpeg, .png, .webp, .avif] Format.text (← fields.lookup "format")
  let quality ← withDefault ⟨82, by decide, by decide⟩ (readBounded 1 100)
    (fields.lookup "quality")
  return { format := format, quality := quality }

structure ThumbnailOptions where
  size : Bounded 16 maxThumbnail

/-- `ThumbnailOptionsSchema.safeParse`. -/
def ThumbnailOptionsSchema.safeParse (fields : Fields) : Option ThumbnailOptions := do
  let size ← withDefault ⟨256, by decide, by decide⟩ (readBounded 16 maxThumbnail)
    (fields.lookup "size")
  return { size := size }

/-! ### Options of the CSV operations -/

/-- `z.string().length(1)`: one code unit. -/
structure Delimiter where
  text : String
  length : unitLength text.toList = 1

def readDelimiter (value : Json) : Option Delimiter := do
  let text ← value.asString
  if h : unitLength text.toList = 1 then some ⟨text, h⟩ else none

def comma : Delimiter := ⟨",", by decide⟩

/-- `z.array(z.string())` -/
def readTexts : Json → Option (List String)
  | .array elements => elements.mapM Json.asString
  | _ => none

/-- Options with the delimiter that the records are made with. -/
structure Delimited (Options : Type) where
  delimiter : Delimiter
  options : Options

/-- `ValidateOptionsSchema.safeParse`. -/
def ValidateOptionsSchema.safeParse (fields : Fields) :
    Option (Delimited Validate.ValidateOptions) := do
  let hasHeader ← withDefault true readBoolean (fields.lookup "hasHeader")
  let delimiter ← withDefault comma readDelimiter (fields.lookup "delimiter")
  return { delimiter := delimiter, options := { hasHeader := hasHeader } }

/-- `TransformOptionsSchema.safeParse`. -/
def TransformOptionsSchema.safeParse (fields : Fields) :
    Option (Delimited Transform.TransformOptions) := do
  let hasHeader ← withDefault true readBoolean (fields.lookup "hasHeader")
  let delimiter ← withDefault comma readDelimiter (fields.lookup "delimiter")
  let columns ← withDefault [] readTexts (fields.lookup "columns")
  let trim ← withDefault true readBoolean (fields.lookup "trim")
  let dropEmptyRows ← withDefault true readBoolean (fields.lookup "dropEmptyRows")
  return {
    delimiter := delimiter
    options := {
      hasHeader := hasHeader, columns := columns, trim := trim, dropEmptyRows := dropEmptyRows } }

end FileForge.Jobs.JobOptions
