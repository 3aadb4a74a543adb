import FileForge.Foundation.EcmaText
import Mathlib.Data.List.Nodup
import Mathlib.Data.List.Infix

/-!
# The text format of metrics

A text of lines, each of which says something of a metric: `# HELP name text`, `# TYPE name kind`
or a sample `name value`. The reader takes a text apart into families, one for each name. All lines
of a family stand together, its help and its kind come before its value, and none of the three is
given twice. Labels and timestamps are not part of what is read here; a line with them is refused.

A writer uses `readText_writeMetrics`: metrics with distinct names, each of them well formed, are
read back as they were written.
-/

set_option autoImplicit false
set_option relaxedAutoImplicit false

namespace FileForge.Foundation.Exposition

/-! ### The reader -/

inductive Kind
  | counter
  | gauge
  deriving DecidableEq, Repr

def Kind.chars : Kind → List Char
  | .counter => ['c', 'o', 'u', 'n', 't', 'e', 'r']
  | .gauge => ['g', 'a', 'u', 'g', 'e']

/-- A line. -/
inductive Line
  | help (name text : List Char)
  | type (name : List Char) (kind : Kind)
  | sample (name value : List Char)
  /-- An empty line or a comment. -/
  | other
  deriving DecidableEq, Repr

/-- What separates the words of a line. -/
def isBlank (c : Char) : Bool := c = ' ' || c = '\t'

/-- The next word of a line, and what follows it. -/
def nextWord (chars : List Char) : List Char × List Char :=
  let rest := chars.dropWhile isBlank
  (rest.takeWhile fun c ↦ !isBlank c, rest.dropWhile fun c ↦ !isBlank c)

/-- A character that a name may begin with. -/
def isNameStart (c : Char) : Bool := c.isAlpha || c = '_' || c = ':'

def isNameChar (c : Char) : Bool := isNameStart c || c.isDigit

def isName : List Char → Bool
  | [] => false
  | first :: rest => isNameStart first && rest.all isNameChar

/-- The text of a help line, without its escapes. -/
def unescape : List Char → List Char
  | '\\' :: '\\' :: rest => '\\' :: unescape rest
  | '\\' :: 'n' :: rest => '\n' :: unescape rest
  | c :: rest => c :: unescape rest
  | [] => []

def readKind (word : List Char) : Option Kind :=
  if word = Kind.counter.chars then some .counter
  else if word = Kind.gauge.chars then some .gauge
  else none

/-- A line that begins with `#`, without it. -/
def readRemark (chars : List Char) : Option Line :=
  let (keyword, rest) := nextWord chars
  if keyword = ['H', 'E', 'L', 'P'] then
    let (name, text) := nextWord rest
    if isName name then some (.help name (unescape (text.dropWhile isBlank))) else none
  else if keyword = ['T', 'Y', 'P', 'E'] then
    let (name, kind) := nextWord rest
    let (kind, end_) := nextWord kind
    if isName name ∧ end_.all isBlank then (readKind kind).map (.type name) else none
  else some .other

/-- A sample. -/
def readSample (chars : List Char) : Option Line :=
  let (name, rest) := nextWord chars
  let (value, end_) := nextWord rest
  if isName name ∧ value ≠ [] ∧ end_.all isBlank then some (.sample name value) else none

def readLine (chars : List Char) : Option Line :=
  match chars.dropWhile isBlank with
  | [] => some .other
  | '#' :: rest => readRemark rest
  | chars => readSample chars

/-- What the text says of one name. -/
structure Family where
  name : List Char
  help : Option (List Char) := none
  kind : Option Kind := none
  value : Option (List Char) := none
  deriving DecidableEq, Repr

/-- The name that a line is about. -/
def Line.name? : Line → Option (List Char)
  | .help name _ | .type name _ | .sample name _ => some name
  | .other => none

/-- One more line of a family. -/
def Family.add (family : Family) : Line → Option Family
  | .help _ text =>
    if family.help = none ∧ family.value = none then some { family with help := some text }
    else none
  | .type _ kind =>
    if family.kind = none ∧ family.value = none then some { family with kind := some kind }
    else none
  | .sample _ value => if family.value = none then some { family with value := some value } else none
  | .other => some family

/-- One more line of a text, of which the last families have been read first. -/
def addLine (families : List Family) (line : Line) : Option (List Family) :=
  match line.name? with
  | none => some families
  | some name =>
    match families with
    | current :: earlier =>
      if current.name = name then (current.add line).map (· :: earlier)
      else if name ∈ earlier.map Family.name then none
      else (Family.add { name := name } line).map (· :: current :: earlier)
    | [] => (Family.add { name := name } line).map ([·])

/-- The families of the lines. -/
def collect (lines : List Line) : Option (List Family) :=
  (lines.foldlM addLine []).map List.reverse

/-- A text ends with the end of a line. -/
def readText (chars : List Char) : Option (List Family) :=
  let lines := chars.splitOn '\n'
  if lines.getLast? = some [] then (lines.dropLast.mapM readLine).bind collect else none

/-! ### The writer -/

/-- A metric with a help text and one sample. -/
structure Metric where
  name : List Char
  help : List Char
  kind : Kind
  value : List Char
  deriving DecidableEq, Repr

def Metric.helpLine (metric : Metric) : List Char :=
  ['#', ' ', 'H', 'E', 'L', 'P', ' '] ++ (metric.name ++ ' ' :: metric.help)

def Metric.typeLine (metric : Metric) : List Char :=
  ['#', ' ', 'T', 'Y', 'P', 'E', ' '] ++ (metric.name ++ ' ' :: metric.kind.chars)

def Metric.sampleLine (metric : Metric) : List Char := metric.name ++ ' ' :: metric.value

def Metric.lines (metric : Metric) : List (List Char) :=
  [metric.helpLine, metric.typeLine, metric.sampleLine]

/-- The lines of all metrics, with a line feed between them and one at the end. -/
def writeMetrics (metrics : List Metric) : List Char :=
  ['\n'].intercalate (metrics.flatMap Metric.lines) ++ ['\n']

/-- What is read of a metric. -/
def Metric.family (metric : Metric) : Family where
  name := metric.name
  help := some metric.help
  kind := some metric.kind
  value := some metric.value

/-- The help text begins with a word and has nothing to escape; the value is one word. -/
structure Metric.Wellformed (metric : Metric) : Prop where
  name : isName metric.name = true
  help_start : metric.help.dropWhile isBlank = metric.help
  help_plain : ∀ c ∈ metric.help, c ≠ '\\' ∧ c ≠ '\n'
  value_ne : metric.value ≠ []
  value_word : ∀ c ∈ metric.value, isBlank c = false ∧ c ≠ '\n'

example : (readText "# HELP a is so\n# TYPE a gauge\na  1 \n\n# note\nb 2\n".toList).map
    (·.map (·.value)) = some [some ['1'], some ['2']] := by
  decide

/-! ### Words -/

theorem isBlank_of_isNameChar {c : Char} (h : isNameChar c = true) : isBlank c = false := by
  rw [Bool.eq_false_iff]
  intro hblank
  rcases Bool.or_eq_true_iff.mp hblank with hspace | htab
  · obtain rfl := of_decide_eq_true hspace
    revert h
    decide
  · obtain rfl := of_decide_eq_true htab
    revert h
    decide

theorem forall_isNameChar {name : List Char} (h : isName name = true) :
    ∀ c ∈ name, isNameChar c = true := by
  cases name with
  | nil => cases h
  | cons first rest =>
    obtain ⟨hfirst, hrest⟩ := Bool.and_eq_true_iff.mp h
    intro c hc
    rcases List.mem_cons.mp hc with rfl | hc
    · rw [isNameChar, hfirst, Bool.true_or]
    · exact List.all_eq_true.mp hrest c hc

theorem ne_nil_of_isName {name : List Char} (h : isName name = true) : name ≠ [] := by
  rintro rfl
  cases h

/-- A word that a blank comes before, up to the next one or to the end. -/
theorem nextWord_word {word rest : List Char} (h : ∀ c ∈ word, isBlank c = false)
    (hne : word ≠ []) (hrest : ∀ c ∈ rest.head?, isBlank c = true) :
    nextWord (word ++ rest) = (word, rest) := by
  obtain ⟨first, others, rfl⟩ := List.exists_cons_of_ne_nil hne
  have hfirst : isBlank first = false := h first List.mem_cons_self
  have hstart : (first :: others ++ rest).dropWhile isBlank = first :: others ++ rest := by
    rw [List.cons_append, List.dropWhile_cons_of_neg (by simp [hfirst])]
  have hwords : ∀ c ∈ first :: others, (!isBlank c) = true := fun c hc ↦ by rw [h c hc]; rfl
  have htake : rest.takeWhile (fun c ↦ !isBlank c) = [] := by
    cases rest with
    | nil => rfl
    | cons c rest => rw [List.takeWhile_cons_of_neg (by simp [hrest c rfl])]
  have hdrop : rest.dropWhile (fun c ↦ !isBlank c) = rest := by
    cases rest with
    | nil => rfl
    | cons c rest => rw [List.dropWhile_cons_of_neg (by simp [hrest c rfl])]
  rw [nextWord, hstart, List.takeWhile_append_of_pos hwords, List.dropWhile_append_of_pos hwords,
    htake, hdrop, List.append_nil]

theorem nextWord_blank (rest : List Char) : nextWord (' ' :: rest) = nextWord rest := by
  rw [nextWord, nextWord, List.dropWhile_cons_of_pos (by decide)]

/-- A text without a backslash. -/
theorem unescape_of_plain {text : List Char} (h : ∀ c ∈ text, c ≠ '\\') : unescape text = text := by
  induction text with
  | nil => rfl
  | cons c rest ih =>
    have hc := h c List.mem_cons_self
    rw [unescape, ih fun d hd ↦ h d (List.mem_cons_of_mem c hd)]
    · rintro rest rfl _
      exact hc rfl
    · rintro rest rfl _
      exact hc rfl

/-! ### What is written is read -/

namespace Metric

variable {metric : Metric}

theorem Wellformed.name_word (h : metric.Wellformed) : ∀ c ∈ metric.name, isBlank c = false :=
  fun c hc ↦ isBlank_of_isNameChar (forall_isNameChar h.name c hc)

theorem Wellformed.nextWord_name (h : metric.Wellformed) (rest : List Char) :
    nextWord (metric.name ++ ' ' :: rest) = (metric.name, ' ' :: rest) := by
  refine nextWord_word h.name_word (ne_nil_of_isName h.name) fun c hc ↦ ?_
  cases hc
  rfl

theorem Wellformed.readLine_helpLine (h : metric.Wellformed) :
    readLine metric.helpLine = some (.help metric.name metric.help) := by
  have hkeyword : nextWord (' ' :: 'H' :: 'E' :: 'L' :: 'P' :: ' ' ::
      (metric.name ++ ' ' :: metric.help)) =
        (['H', 'E', 'L', 'P'], ' ' :: (metric.name ++ ' ' :: metric.help)) := rfl
  show readRemark (' ' :: 'H' :: 'E' :: 'L' :: 'P' :: ' ' :: (metric.name ++ ' ' :: metric.help)) = _
  simp only [readRemark, hkeyword, nextWord_blank, h.nextWord_name, if_true, h.name]
  rw [List.dropWhile_cons_of_pos (by decide), h.help_start,
    unescape_of_plain fun c hc ↦ (h.help_plain c hc).1]

theorem Wellformed.readLine_typeLine (h : metric.Wellformed) :
    readLine metric.typeLine = some (.type metric.name metric.kind) := by
  have hkeyword : nextWord (' ' :: 'T' :: 'Y' :: 'P' :: 'E' :: ' ' ::
      (metric.name ++ ' ' :: metric.kind.chars)) =
        (['T', 'Y', 'P', 'E'], ' ' :: (metric.name ++ ' ' :: metric.kind.chars)) := rfl
  have hkind : nextWord (' ' :: metric.kind.chars) = (metric.kind.chars, []) := by
    cases metric.kind <;> rfl
  have hread : readKind metric.kind.chars = some metric.kind := by
    cases metric.kind <;> rfl
  show readRemark (' ' :: 'T' :: 'Y' :: 'P' :: 'E' :: ' ' ::
    (metric.name ++ ' ' :: metric.kind.chars)) = _
  simp [readRemark, hkeyword, nextWord_blank, h.nextWord_name, hkind, h.name, hread]

theorem Wellformed.readLine_sampleLine (h : metric.Wellformed) :
    readLine metric.sampleLine = some (.sample metric.name metric.value) := by
  obtain ⟨first, rest, hname⟩ := List.exists_cons_of_ne_nil (ne_nil_of_isName h.name)
  have hblank : isBlank first = false := h.name_word first (hname ▸ List.mem_cons_self)
  have hstart : metric.sampleLine.dropWhile isBlank = metric.sampleLine := by
    rw [sampleLine, hname, List.cons_append, List.dropWhile_cons_of_neg (by simp [hblank])]
  have hfirst : first ≠ '#' := by
    rintro rfl
    have hvalid := h.name
    rw [hname] at hvalid
    cases hvalid
  have hvalue : nextWord (' ' :: metric.value) = (metric.value, []) := by
    have hword : nextWord (metric.value ++ []) = (metric.value, []) :=
      nextWord_word (fun c hc ↦ (h.value_word c hc).1) h.value_ne fun c hc ↦ by cases hc
    rw [List.append_nil] at hword
    rw [nextWord_blank, hword]
  have hsample : readLine metric.sampleLine = readSample metric.sampleLine := by
    rw [readLine, hstart]
    split
    · rename_i hempty
      rw [sampleLine, hname] at hempty
      cases hempty
    · rename_i hremark
      rw [sampleLine, hname, List.cons_append] at hremark
      exact absurd (List.cons.inj hremark).1 hfirst
    · rfl
  rw [hsample]
  simp [readSample, sampleLine, h.nextWord_name, hvalue, h.name, h.value_ne]

/-- The three lines of a metric. -/
def parsed (metric : Metric) : List Line :=
  [.help metric.name metric.help, .type metric.name metric.kind, .sample metric.name metric.value]

theorem mapM_readLine {metrics : List Metric} (h : ∀ metric ∈ metrics, metric.Wellformed) :
    (metrics.flatMap lines).mapM readLine = some (metrics.flatMap parsed) := by
  induction metrics with
  | nil => rfl
  | cons metric rest ih =>
    have hmetric := h metric List.mem_cons_self
    rw [List.flatMap_cons, List.flatMap_cons, List.mapM_append,
      ih fun other hother ↦ h other (List.mem_cons_of_mem metric hother)]
    simp [lines, parsed, hmetric.readLine_helpLine, hmetric.readLine_typeLine,
      hmetric.readLine_sampleLine]

/-- The lines of one more metric, with a name that has not been there. -/
theorem foldlM_parsed {families : List Family} (hnew : metric.name ∉ families.map Family.name) :
    metric.parsed.foldlM addLine families = some (metric.family :: families) := by
  have hhelp : addLine families (.help metric.name metric.help) =
      some ({ name := metric.name, help := some metric.help } :: families) := by
    cases families with
    | nil => rfl
    | cons current earlier =>
      rw [List.map_cons, List.mem_cons, not_or] at hnew
      rw [addLine]
      simp only [Line.name?]
      rw [if_neg fun heq ↦ hnew.1 heq.symm, if_neg hnew.2]
      rfl
  rw [parsed, List.foldlM_cons, hhelp, Option.bind_eq_bind, Option.bind_some, List.foldlM_cons]
  simp [addLine, Line.name?, Family.add, family]

/-- Metrics with distinct names. -/
theorem collect_parsed {metrics : List Metric} (h : (metrics.map name).Nodup) :
    collect (metrics.flatMap parsed) = some (metrics.map family) := by
  have hfold : ∀ (metrics : List Metric) (families : List Family),
      (metrics.map name).Nodup → (∀ metric ∈ metrics, metric.name ∉ families.map Family.name) →
        (metrics.flatMap parsed).foldlM addLine families =
          some ((metrics.map family).reverse ++ families) := by
    intro metrics
    induction metrics with
    | nil => exact fun _ _ _ ↦ rfl
    | cons metric rest ih =>
      intro families hnodup hnew
      obtain ⟨hfirst, hrest⟩ := List.nodup_cons.mp hnodup
      rw [List.flatMap_cons, List.foldlM_append,
        foldlM_parsed (hnew metric List.mem_cons_self), Option.bind_eq_bind, Option.bind_some,
        ih _ hrest]
      · simp
      · intro other hother hmem
        rcases List.mem_cons.mp hmem with hsame | hold
        · exact hfirst (List.mem_map.mpr ⟨other, hother, hsame⟩)
        · exact hnew other (List.mem_cons_of_mem metric hother) hold
  rw [collect, hfold metrics [] h fun _ _ hmem ↦ List.not_mem_nil hmem]
  simp

/-- A family is found under its name. -/
theorem find?_family {metrics : List Metric} (h : (metrics.map name).Nodup)
    (hmetric : metric ∈ metrics) :
    (metrics.map family).find? (fun family ↦ family.name = metric.name) = some metric.family := by
  induction metrics with
  | nil => exact absurd hmetric List.not_mem_nil
  | cons first rest ih =>
    obtain ⟨hfirst, hrest⟩ := List.nodup_cons.mp h
    rcases List.mem_cons.mp hmetric with rfl | hmem
    · rw [List.map_cons, List.find?_cons_of_pos (by exact decide_eq_true rfl)]
    · have hne : first.family.name ≠ metric.name := fun heq ↦
        hfirst (List.mem_map.mpr ⟨metric, hmem, heq.symm⟩)
      rw [List.map_cons, List.find?_cons_of_neg (by simpa using hne), ih hrest hmem]

theorem Wellformed.lineFeed_notMem (h : metric.Wellformed) :
    ∀ line ∈ metric.lines, '\n' ∉ line := by
  have hname : '\n' ∉ metric.name := by
    intro hmem
    have hchar := forall_isNameChar h.name _ hmem
    revert hchar
    decide
  have hhelp : '\n' ∉ metric.help := fun hmem ↦ (h.help_plain _ hmem).2 rfl
  have hvalue : '\n' ∉ metric.value := fun hmem ↦ (h.value_word _ hmem).2 rfl
  have hkind : '\n' ∉ metric.kind.chars := by
    cases metric.kind <;> decide
  intro line hline
  simp only [lines, List.mem_cons, List.not_mem_nil, or_false] at hline
  rcases hline with rfl | rfl | rfl
  · simp [helpLine, hname, hhelp]
  · simp [typeLine, hname, hkind]
  · simp [sampleLine, hname, hvalue]

end Metric

/-- A line feed after the last line is one before an empty one. -/
theorem intercalate_concat {lines : List (List Char)} (h : lines ≠ []) (separator : List Char) :
    separator.intercalate lines ++ separator = separator.intercalate (lines ++ [[]]) := by
  induction lines with
  | nil => exact absurd rfl h
  | cons line rest ih =>
    by_cases hrest : rest = []
    · simp [hrest]
    · rw [List.cons_append, List.intercalate_cons_of_ne_nil hrest,
        List.intercalate_cons_of_ne_nil (by simp), List.append_assoc, ih hrest]

/-- Metrics are read back as they were written. Assumes: at least one, all of them well formed, with
distinct names. -/
theorem readText_writeMetrics {metrics : List Metric} (hne : metrics ≠ [])
    (h : ∀ metric ∈ metrics, metric.Wellformed) (hnodup : (metrics.map Metric.name).Nodup) :
    readText (writeMetrics metrics) = some (metrics.map Metric.family) := by
  have hlines : metrics.flatMap Metric.lines ≠ [] := by
    obtain ⟨metric, rest, rfl⟩ := List.exists_cons_of_ne_nil hne
    rw [List.flatMap_cons, Metric.lines]
    simp
  have hsplit : (writeMetrics metrics).splitOn '\n' = metrics.flatMap Metric.lines ++ [[]] := by
    rw [writeMetrics, intercalate_concat hlines]
    refine List.splitOn_intercalate '\n' (fun line hline ↦ ?_) (by simp)
    rcases List.mem_append.mp hline with hline | hline
    · obtain ⟨metric, hmetric, hmem⟩ := List.mem_flatMap.mp hline
      exact (h metric hmetric).lineFeed_notMem line hmem
    · rw [List.mem_singleton.mp hline]
      exact List.not_mem_nil
  rw [readText, hsplit]
  simp only [List.getLast?_concat, if_true, List.dropLast_concat]
  rw [Metric.mapM_readLine h, Option.bind_some, Metric.collect_parsed hnodup]

end FileForge.Foundation.Exposition
