import FileForge.Files.Upload

/-!
# The keys of produced files

`outputKey` of `src/jobs/csv.ts`: a file that is produced from an upload is stored under the
upload's name without its extension, the kind of file and the start of a fresh identifier. The name
is that of the upload's record, which `sanitizeFilename` has returned, so a key has no control
characters and none of the reserved ones (`mem_producedKey`), and it ends with its extension
(`exists_producedKey_eq`).
-/

set_option autoImplicit false
set_option relaxedAutoImplicit false

namespace FileForge.Csv.OutputKeys

open Foundation.EcmaText Files.Upload

/-! ### The functions -/

/-- `replace(/\.[^.]+$/, '')`: without the last dot and what follows it, if anything does. -/
def withoutExtension (name : List Char) : List Char :=
  if '.' ∉ name ∨ name.getLast? = some '.' then name
  else ((name.reverse.dropWhile (· ≠ '.')).drop 1).reverse

/-- `randomUUID().slice(0, 8)`. -/
structure IdStart where
  text : String
  hex : ∀ c ∈ text.toList, c.isDigit = true ∨ c ∈ ['a', 'b', 'c', 'd', 'e', 'f']
  length : text.length = 8

def outputKey (originalName suffix ext : String) (id : IdStart) : String :=
  let base := String.ofList (sliceStart 40 (withoutExtension originalName.toList))
  "outputs/" ++ base ++ "-" ++ suffix ++ "-" ++ id.text ++ ext

/-- What a CSV job produces. -/
inductive Product
  /-- The report of `csv.validate`. -/
  | report
  /-- The table of `csv.transform`. -/
  | clean
  deriving DecidableEq, Repr

def Product.suffix : Product → String
  | .report => "report"
  | .clean => "clean"

def Product.ext : Product → String
  | .report => ".json"
  | .clean => ".csv"

/-- The key that a job stores its product under, for an upload of some name. -/
def producedKey (uploaded : String) (product : Product) (id : IdStart) : String :=
  outputKey (sanitizeFilename uploaded) product.suffix product.ext id

example : producedKey "C:\\data\\Q3.final.csv" .report
      ⟨"0a1b2c3d", forall_mem_of_all (by decide), by decide⟩ =
    "outputs/Q3.final-report-0a1b2c3d.json" := by
  decide

/-! ### The characters of a key -/

theorem mem_of_mem_withoutExtension {name : List Char} {c : Char}
    (h : c ∈ withoutExtension name) : c ∈ name := by
  unfold withoutExtension at h
  split_ifs at h
  · exact h
  · have hreverse := (List.drop_sublist 1 _).mem (List.mem_reverse.mp h)
    exact List.mem_reverse.mp ((List.dropWhile_suffix _).mem hreverse)

/-- What follows the directory in a key. -/
def component (originalName suffix ext : String) (id : IdStart) : String :=
  String.ofList (sliceStart 40 (withoutExtension originalName.toList)) ++ "-" ++ suffix ++ "-" ++
    id.text ++ ext

theorem outputKey_eq (originalName suffix ext : String) (id : IdStart) :
    outputKey originalName suffix ext id =
      "outputs" ++ "/" ++ component originalName suffix ext id := by
  rw [← String.toList_inj]
  simp [outputKey, component, String.toList_append]

/-- Assumes: a property of the characters of the parts of a key, of the replacement character and
of the dash. -/
theorem forall_mem_component {property : Char → Prop} {originalName suffix ext : String}
    {id : IdStart} (hname : ∀ c ∈ originalName.toList, property c)
    (hsuffix : ∀ c ∈ suffix.toList, property c) (hext : ∀ c ∈ ext.toList, property c)
    (hid : ∀ c ∈ id.text.toList, property c) (hcut : property '\uFFFD') (hdash : property '-') :
    ∀ c ∈ (component originalName suffix ext id).toList, property c := by
  intro c hc
  simp only [component, String.toList_append, String.toList_ofList, List.mem_append] at hc
  rcases hc with ((((hc | hc) | hc) | hc) | hc) | hc
  · rcases mem_sliceStart hc with hbase | rfl
    · exact hname c (mem_of_mem_withoutExtension hbase)
    · exact hcut
  · rw [List.mem_singleton.mp hc]
    exact hdash
  · exact hsuffix c hc
  · rw [List.mem_singleton.mp hc]
    exact hdash
  · exact hid c hc
  · exact hext c hc

theorem dash_mem_component (originalName suffix ext : String) (id : IdStart) :
    '-' ∈ (component originalName suffix ext id).toList := by
  simp [component, String.toList_append]

theorem IdStart.forall_mem {property : Char → Prop} (id : IdStart)
    (hdigit : ∀ c, c.isDigit = true → property c)
    (hletter : ∀ c ∈ ['a', 'b', 'c', 'd', 'e', 'f'], property c) :
    ∀ c ∈ id.text.toList, property c :=
  fun c hc ↦ (id.hex c hc).elim (hdigit c) (hletter c)

/-- A key of a produced file has no control characters and no reserved ones. -/
theorem mem_producedKey {uploaded : String} {product : Product} {id : IdStart} {c : Char}
    (h : c ∈ (producedKey uploaded product id).toList) :
    isControl c = false ∧ isReserved c = false := by
  have hid : ∀ d ∈ id.text.toList, isControl d = false ∧ isReserved d = false := by
    refine id.forall_mem (fun d hdigit ↦ ?_) (forall_mem_of_all (by decide))
    have hrange : 48 ≤ d.toNat ∧ d.toNat ≤ 57 := Char.isDigit_iff_toNat.mp hdigit
    constructor
    · simp only [isControl, Bool.or_eq_false_iff, decide_eq_false_iff_not]
      omega
    · have hreserved : ∀ e ∈ ['<', '>', ':', '"', '|', '?', '*'], ¬ e.isDigit = true :=
        forall_mem_of_all (by decide)
      rw [isReserved, List.contains_eq_mem, decide_eq_false_iff_not]
      exact fun hmem ↦ hreserved d hmem hdigit
  rw [producedKey, outputKey_eq, String.toList_append] at h
  rcases List.mem_append.mp h with hdirectory | hcomponent
  · have hfixed : ∀ d ∈ ("outputs" ++ "/").toList, isControl d = false ∧ isReserved d = false :=
      forall_mem_of_all (by decide)
    exact hfixed c hdirectory
  · refine forall_mem_component (fun _ hd ↦ mem_sanitizeFilename hd) ?_ ?_ hid (by decide)
      (by decide) c hcomponent
    · cases product <;> exact forall_mem_of_all (by decide)
    · cases product <;> exact forall_mem_of_all (by decide)

/-- A key of a produced file ends with the last letter of its extension. -/
theorem exists_producedKey_eq (uploaded : String) (product : Product) (id : IdStart) :
    ∃ start last, (producedKey uploaded product id).toList = start ++ [last] ∧
      0x20 < last.toNat := by
  have hext : ∃ start last, product.ext.toList = start ++ [last] ∧ 0x20 < last.toNat := by
    cases product with
    | report => exact ⟨['.', 'j', 's', 'o'], 'n', rfl, by decide⟩
    | clean => exact ⟨['.', 'c', 's'], 'v', rfl, by decide⟩
  obtain ⟨start, last, hlast, hspace⟩ := hext
  have hkey : ∃ before, (producedKey uploaded product id).toList =
      before ++ product.ext.toList := ⟨_, String.toList_append⟩
  obtain ⟨before, hbefore⟩ := hkey
  rw [hlast, ← List.append_assoc] at hbefore
  exact ⟨before ++ start, last, hbefore, hspace⟩

end FileForge.Csv.OutputKeys
