import FileForge.Foundation.EcmaNumber
import FileForge.Foundation.Exposition
import FileForge.Foundation.Execution

/-!
# Counters and what a scraper reads of them

`src/metrics.ts`. The counters are kept in Redis, where all processes increment them, and
`GET /metrics` writes them as text. `metrics_read_back` is the round trip: whatever becomes of the
calls to Redis and to the queue, the reader of the format takes the text, and finds under each name
what Redis, the queue and the process have answered. `counters_count_up` is about the runs of all
processes beside each other: what two scrapes find in a counter has grown from one to the other, and
lies between what the processes were told and what they asked for.
-/

set_option autoImplicit false
set_option relaxedAutoImplicit false

namespace FileForge.Api.Metrics

open Foundation.EcmaNumber Foundation.Exposition Foundation.Execution

/-! ### Counters -/

inductive CounterName
  | uploadsTotal
  | jobsQueuedTotal
  | jobsCompletedTotal
  | jobsFailedTotal
  | bytesUploadedTotal
  | filesCleanedTotal
  deriving DecidableEq, Repr

def CounterName.text : CounterName → String
  | .uploadsTotal => "uploads_total"
  | .jobsQueuedTotal => "jobs_queued_total"
  | .jobsCompletedTotal => "jobs_completed_total"
  | .jobsFailedTotal => "jobs_failed_total"
  | .bytesUploadedTotal => "bytes_uploaded_total"
  | .filesCleanedTotal => "files_cleaned_total"

/-- `COUNTER_PREFIX` -/
def counterPrefix : String := "metrics:"

def CounterName.key (name : CounterName) : String := counterPrefix ++ name.text

/-- The counters in Redis, `none` for a key that is not there. -/
abbrev Counters := String → Option ℕ

/-- The greatest integer that Redis counts to. -/
def maxCounter : ℕ := 2 ^ 63 - 1

/-- `INCRBY`; beyond the greatest integer it is refused. -/
def incrby (counters : Counters) (key : String) (amount : ℕ) : Option Counters :=
  let value := (counters key).getD 0 + amount
  if value ≤ maxCounter then some (Function.update counters key (some value)) else none

/-- `MGET`: counters are texts. -/
def mget (counters : Counters) (keys : List String) : List (Option String) :=
  keys.map fun key ↦ (counters key).map toString

/-- What becomes of a command. One that fails may have been carried out before its answer was
lost. -/
inductive Fate
  | completes
  | fails (applied : Bool)
  deriving DecidableEq

/-- `incrementCounter`, `none` for a process without Redis. Best effort: there is no failure. -/
def incrementCounter (redis : Option Fate) (counters : Counters) (name : CounterName)
    (amount : ℕ) : Counters :=
  match redis with
  | none | some (.fails false) => counters
  | some .completes | some (.fails true) => (incrby counters name.key amount).getD counters

/-- `names` in `readCounters`. -/
def names : List CounterName :=
  [.uploadsTotal, .jobsQueuedTotal, .jobsCompletedTotal, .jobsFailedTotal, .bytesUploadedTotal,
    .filesCleanedTotal]

/-- `Number(value ?? 0)` -/
def numberOf : Option String → JsNumber
  | some text => ofText text
  | none => ofRat 0

/-- `readCounters`. Without an answer of Redis every counter is zero. -/
def readCounters (redis : Option Fate) (counters : Counters) : List (CounterName × JsNumber) :=
  match redis with
  | none | some (.fails _) => names.map fun name ↦ (name, ofRat 0)
  | some .completes => names.zip ((mget counters (names.map CounterName.key)).map numberOf)

/-- A property of the record of counters. -/
def total (totals : List (CounterName × JsNumber)) (name : CounterName) : JsNumber :=
  (totals.lookup name).getD .nan

/-! ### The queue -/

/-- What `getJobCounts` answers. -/
structure JobCounts where
  waiting : Option ℕ
  active : Option ℕ
  completed : Option ℕ
  failed : Option ℕ
  delayed : Option ℕ

structure QueueDepth where
  waiting : ℕ
  active : ℕ
  completed : ℕ
  failed : ℕ
  delayed : ℕ

/-- `readQueueDepth`. The process may have no queue, and the queue may not answer. -/
def readQueueDepth : Option (Option JobCounts) → Option QueueDepth
  | none | some none => none
  | some (some counts) => some {
      waiting := counts.waiting.getD 0
      active := counts.active.getD 0
      completed := counts.completed.getD 0
      failed := counts.failed.getD 0
      delayed := counts.delayed.getD 0 }

/-! ### The text -/

/-- A number of the text. -/
structure Sample where
  name : String
  help : String
  kind : Kind
  value : JsNumber

def counter (name help : String) (value : JsNumber) : Sample := ⟨name, help, .counter, value⟩

def gauge (name help : String) (value : JsNumber) : Sample := ⟨name, help, .gauge, value⟩

/-- The three lines that `counter` and `gauge` push. -/
def Sample.lines (sample : Sample) : List String := [
  "# HELP file_forge_" ++ sample.name ++ " " ++ sample.help,
  "# TYPE file_forge_" ++ sample.name ++ " " ++ String.ofList sample.kind.chars,
  "file_forge_" ++ sample.name ++ " " ++ toText sample.value]

/-- What one request finds: Redis, the queue, the process and its clock. -/
structure Scrape where
  redis : Option Fate := some .completes
  queue : Option (Option JobCounts) := none
  heapUsed : ℕ := 0
  now : ℤ := 0

def counterSamples (totals : List (CounterName × JsNumber)) : List Sample := [
  counter "uploads_total" "Files accepted for processing" (total totals .uploadsTotal),
  counter "jobs_queued_total" "Jobs added to the queue" (total totals .jobsQueuedTotal),
  counter "jobs_completed_total" "Jobs that finished successfully"
    (total totals .jobsCompletedTotal),
  counter "jobs_failed_total" "Jobs that failed for good" (total totals .jobsFailedTotal),
  counter "bytes_uploaded_total" "Total bytes accepted" (total totals .bytesUploadedTotal),
  counter "files_cleaned_total" "Files removed by the cleanup job"
    (total totals .filesCleanedTotal)]

def queueSamples : Option QueueDepth → List Sample
  | some queue => [
    gauge "queue_waiting" "Jobs waiting to be picked up" (ofRat queue.waiting),
    gauge "queue_active" "Jobs currently being processed" (ofRat queue.active),
    gauge "queue_delayed" "Jobs waiting for a retry" (ofRat queue.delayed)]
  | none => []

def processSamples (startedAt : ℤ) (scrape : Scrape) : List Sample := [
  gauge "process_heap_bytes" "Heap in use by this process" (ofRat scrape.heapUsed),
  gauge "process_uptime_seconds" "Seconds since this process started"
    (ofRat ((scrape.now - startedAt : ℤ) / 1000)).floor]

/-- The numbers in their order. -/
def samples (startedAt : ℤ) (scrape : Scrape) (counters : Counters) : List Sample :=
  counterSamples (readCounters scrape.redis counters) ++
    queueSamples (readQueueDepth scrape.queue) ++ processSamples startedAt scrape

/-- `GET /metrics` -/
def metricsText (startedAt : ℤ) (scrape : Scrape) (counters : Counters) : String :=
  String.intercalate "\n" ((samples startedAt scrape counters).flatMap Sample.lines) ++ "\n"

/-! ### The round trip -/

/-- A number as a metric of the format. -/
def Sample.metric (sample : Sample) : Metric where
  name := ("file_forge_" ++ sample.name).toList
  help := sample.help.toList
  kind := sample.kind
  value := toChars sample.value

/-- The name is a name of the format, and the help text has nothing to escape. -/
def Described (name help : String) : Prop :=
  isName ("file_forge_" ++ name).toList = true ∧
    help.toList.dropWhile Foundation.Exposition.isBlank = help.toList ∧
      ∀ c ∈ help.toList, c ≠ '\\' ∧ c ≠ '\n'

instance (name help : String) : Decidable (Described name help) :=
  have : Decidable (∀ c ∈ help.toList, c ≠ '\\' ∧ c ≠ '\n') := List.decidableBAll _ _
  inferInstanceAs (Decidable (_ ∧ _ ∧ _))

theorem Sample.lines_metric (sample : Sample) :
    sample.lines.map String.toList = sample.metric.lines := by
  simp [Sample.lines, Sample.metric, Metric.lines, Metric.helpLine, Metric.typeLine,
    Metric.sampleLine, toText]

theorem toList_metricsText (startedAt : ℤ) (scrape : Scrape) (counters : Counters) :
    (metricsText startedAt scrape counters).toList =
      writeMetrics ((samples startedAt scrape counters).map Sample.metric) := by
  rw [metricsText, String.toList_append, String.toList_intercalate, writeMetrics,
    List.flatMap_map, List.map_flatMap]
  simp only [Sample.lines_metric]
  rfl

/-- The texts of a number are words. -/
theorem wellformed_metric {sample : Sample} (h : Described sample.name sample.help) :
    sample.metric.Wellformed where
  name := h.1
  help_start := h.2.1
  help_plain := h.2.2
  value_ne := toChars_ne_nil sample.value
  value_word c hc := by
    have hspace := (isNumberChar_toChars sample.value c hc).isSpace
    refine ⟨Bool.eq_false_iff.mpr fun hblank ↦ ?_, ?_⟩
    · rcases Bool.or_eq_true_iff.mp hblank with hc | hc
      · obtain rfl := of_decide_eq_true hc
        revert hspace
        decide
      · obtain rfl := of_decide_eq_true hc
        revert hspace
        decide
    · rintro rfl
      revert hspace
      decide

variable (startedAt : ℤ) (scrape : Scrape) (counters : Counters)

/-- The names and the help texts, with the gauges of a queue or without them. -/
theorem map_samples :
    (samples startedAt scrape counters).map (fun sample ↦ (sample.name, sample.help)) =
      [("uploads_total", "Files accepted for processing"),
        ("jobs_queued_total", "Jobs added to the queue"),
        ("jobs_completed_total", "Jobs that finished successfully"),
        ("jobs_failed_total", "Jobs that failed for good"),
        ("bytes_uploaded_total", "Total bytes accepted"),
        ("files_cleaned_total", "Files removed by the cleanup job")] ++
      (if (readQueueDepth scrape.queue).isSome then
        [("queue_waiting", "Jobs waiting to be picked up"),
          ("queue_active", "Jobs currently being processed"),
          ("queue_delayed", "Jobs waiting for a retry")] else []) ++
      [("process_heap_bytes", "Heap in use by this process"),
        ("process_uptime_seconds", "Seconds since this process started")] := by
  rw [samples]
  cases readQueueDepth scrape.queue <;> rfl

/-- The names are distinct and described. -/
theorem described_samples :
    (∀ sample ∈ samples startedAt scrape counters, Described sample.name sample.help) ∧
      ((samples startedAt scrape counters).map Sample.name).Nodup := by
  have hpairs : (∀ pair ∈ (samples startedAt scrape counters).map
      (fun sample ↦ (sample.name, sample.help)), Described pair.1 pair.2) ∧
        (((samples startedAt scrape counters).map
          (fun sample ↦ (sample.name, sample.help))).map Prod.fst).Nodup := by
    rw [map_samples]
    split_ifs
    · decide +kernel
    · decide +kernel
  obtain ⟨hdescribed, hnodup⟩ := hpairs
  refine ⟨fun sample hsample ↦ hdescribed (sample.name, sample.help)
    (List.mem_map.mpr ⟨sample, hsample, rfl⟩), ?_⟩
  rw [List.map_map] at hnodup
  exact hnodup

/-- What is read of a number. -/
def Sample.family (sample : Sample) : Family := sample.metric.family

theorem nodup_metrics :
    (((samples startedAt scrape counters).map Sample.metric).map Metric.name).Nodup := by
  have hinjective : Function.Injective fun name : String ↦ ("file_forge_" ++ name).toList := by
    intro first second h
    simpa [String.toList_inj] using h
  have hmapped := (described_samples startedAt scrape counters).2.map hinjective
  rw [List.map_map] at hmapped ⊢
  exact hmapped

theorem readText_samples :
    readText (writeMetrics ((samples startedAt scrape counters).map Sample.metric)) =
      some ((samples startedAt scrape counters).map Sample.family) := by
  rw [readText_writeMetrics _ _ (nodup_metrics startedAt scrape counters), List.map_map]
  · rfl
  · simp [samples, counterSamples]
  · intro metric hmetric
    obtain ⟨sample, hsample, rfl⟩ := List.mem_map.mp hmetric
    exact wellformed_metric ((described_samples startedAt scrape counters).1 sample hsample)

/-- What a scraper takes from a text about one name. -/
structure Reading where
  name : String
  kind : Option Kind
  help : Option String
  value : Option JsNumber

def Reading.of (family : Family) : Reading where
  name := String.ofList family.name
  kind := family.kind
  help := family.help.map String.ofList
  value := family.value.map fun text ↦ ofText (String.ofList text)

/-- What a scraper takes from a text, `none` for a text that is not of the format. -/
def readings (text : String) : Option (List Reading) :=
  (readText text.toList).map (List.map Reading.of)

/-- A counter with its number. -/
def Reading.counter (name help : String) (value : JsNumber) : Reading :=
  ⟨name, some .counter, some help, some value⟩

def Reading.gauge (name help : String) (value : JsNumber) : Reading :=
  ⟨name, some .gauge, some help, some value⟩

theorem Reading.of_family (sample : Sample) : Reading.of sample.family =
    ⟨"file_forge_" ++ sample.name, some sample.kind, some sample.help, some sample.value⟩ := by
  have hvalue : ofText (String.ofList (toChars sample.value)) = sample.value :=
    ofText_toText sample.value
  simp only [Reading.of, Sample.family, Metric.family, Sample.metric, Option.map_some,
    String.ofList_toList, hvalue]

/-- The count of a counter. -/
def count (counters : Counters) (name : CounterName) : ℕ := (counters name.key).getD 0

/-- The count as a scrape finds it, zero when Redis has not answered. -/
def found (redis : Option Fate) (counters : Counters) (name : CounterName) : ℕ :=
  if redis = some .completes then count counters name else 0

theorem total_readCounters (redis : Option Fate) (name : CounterName) :
    total (readCounters redis counters) name = ofRat (found redis counters name) := by
  rw [found]
  split_ifs with hanswered
  · rw [hanswered]
    have hnumber : numberOf ((counters name.key).map toString) = ofRat (count counters name) := by
      rw [count]
      cases counters name.key with
      | none => rfl
      | some value => exact ofText_toString value
    rw [← hnumber]
    cases name <;> rfl
  · match redis with
    | none | some (.fails _) => cases name <;> rfl
    | some .completes => exact absurd rfl hanswered

/-- The text of a scrape is a text of the format, whatever Redis and the queue have answered. A
scraper reads in it the six counters, each with the count that Redis has, or zero without an answer
of Redis; the waiting, the active and the delayed jobs, as the queue has counted them, and nothing
of the queue when it has not answered; and the heap and the uptime of the process. -/
theorem metrics_read_back :
    readings (metricsText startedAt scrape counters) = some (
      [.counter "file_forge_uploads_total" "Files accepted for processing"
          (ofRat (found scrape.redis counters .uploadsTotal)),
        .counter "file_forge_jobs_queued_total" "Jobs added to the queue"
          (ofRat (found scrape.redis counters .jobsQueuedTotal)),
        .counter "file_forge_jobs_completed_total" "Jobs that finished successfully"
          (ofRat (found scrape.redis counters .jobsCompletedTotal)),
        .counter "file_forge_jobs_failed_total" "Jobs that failed for good"
          (ofRat (found scrape.redis counters .jobsFailedTotal)),
        .counter "file_forge_bytes_uploaded_total" "Total bytes accepted"
          (ofRat (found scrape.redis counters .bytesUploadedTotal)),
        .counter "file_forge_files_cleaned_total" "Files removed by the cleanup job"
          (ofRat (found scrape.redis counters .filesCleanedTotal))] ++
      (scrape.queue.join.elim [] fun counts ↦ [
        .gauge "file_forge_queue_waiting" "Jobs waiting to be picked up"
          (ofRat (counts.waiting.getD 0)),
        .gauge "file_forge_queue_active" "Jobs currently being processed"
          (ofRat (counts.active.getD 0)),
        .gauge "file_forge_queue_delayed" "Jobs waiting for a retry"
          (ofRat (counts.delayed.getD 0))]) ++
      [.gauge "file_forge_process_heap_bytes" "Heap in use by this process"
          (ofRat scrape.heapUsed),
        .gauge "file_forge_process_uptime_seconds" "Seconds since this process started"
          (ofRat ((scrape.now - startedAt : ℤ) / 1000)).floor]) := by
  have hread : readings (metricsText startedAt scrape counters) =
      some ((samples startedAt scrape counters).map fun sample ↦ Reading.of sample.family) := by
    rw [readings, toList_metricsText, readText_samples, Option.map_some, List.map_map]
    rfl
  rw [hread]
  simp only [Reading.of_family, samples, counterSamples, total_readCounters, processSamples]
  match scrape.queue with
  | none | some none | some (some counts) => rfl

/-! ### Runs -/

/-- What a scraper finds under a name. -/
def scraped (text : String) (name : CounterName) : Option JsNumber := do
  let families ← readText text.toList
  let family ← families.find? fun family ↦ family.name = ("file_forge_" ++ name.text).toList
  let value ← family.value
  return ofText (String.ofList value)

/-- A call of `incrementCounter` by one of the processes, and what becomes of it. -/
structure Increment where
  redis : Option Fate
  name : CounterName
  amount : ℕ

/-- The calls of all processes, as Redis comes to them. -/
def after (counters : Counters) (increments : List Increment) : Counters :=
  increments.foldl (fun counters increment ↦
    incrementCounter increment.redis counters increment.name increment.amount) counters

@[simp] theorem after_cons (increment : Increment) (increments : List Increment) :
    after counters (increment :: increments) = after
      (incrementCounter increment.redis counters increment.name increment.amount) increments :=
  rfl

/-- What has been asked for. -/
def asked (name : CounterName) (increments : List Increment) : ℕ :=
  (increments.map fun increment ↦
    if increment.name = name ∧ increment.redis ≠ none then increment.amount else 0).sum

/-- What Redis has answered to. -/
def acknowledged (name : CounterName) (increments : List Increment) : ℕ :=
  (increments.map fun increment ↦
    if increment.name = name ∧ increment.redis = some .completes then increment.amount else 0).sum

theorem key_injective : Function.Injective CounterName.key := by
  intro first second h
  cases first <;> cases second <;> first | rfl | exact absurd h (by decide)

theorem count_incrby_self (name : CounterName) (amount : ℕ) :
    count ((incrby counters name.key amount).getD counters) name =
      if count counters name + amount ≤ maxCounter then count counters name + amount
      else count counters name := by
  by_cases hfits : count counters name + amount ≤ maxCounter
  · have hdone : incrby counters name.key amount =
        some (Function.update counters name.key (some (count counters name + amount))) :=
      if_pos hfits
    rw [if_pos hfits, hdone, Option.getD_some, count, Function.update_self, Option.getD_some]
  · have hrefused : incrby counters name.key amount = none := if_neg hfits
    rw [if_neg hfits, hrefused, Option.getD_none]

theorem count_incrby_of_ne {name other : CounterName} (h : name ≠ other) (amount : ℕ) :
    count ((incrby counters other.key amount).getD counters) name = count counters name := by
  have hkey : name.key ≠ other.key := fun heq ↦ h (key_injective heq)
  rw [incrby]
  split_ifs
  · rw [Option.getD_some, count, Function.update_of_ne hkey]
    rfl
  · rfl

/-- One call moves its counter only, by its amount or not at all. Below the greatest integer a call
that has been answered has moved it. -/
theorem count_incrementCounter (increment : Increment) (name : CounterName) :
    let next := count
      (incrementCounter increment.redis counters increment.name increment.amount) name
    count counters name ≤ next ∧ next ≤ count counters name + asked name [increment] ∧
      (count counters name + acknowledged name [increment] ≤ maxCounter →
        count counters name + acknowledged name [increment] ≤ next) := by
  obtain ⟨redis, own, amount⟩ := increment
  by_cases hname : own = name
  · obtain rfl := hname
    have hcount := count_incrby_self counters own amount
    match redis with
    | none | some (.fails false) => simp [incrementCounter, acknowledged]
    | some .completes | some (.fails true) =>
      simp only [incrementCounter, hcount]
      split_ifs <;> simp [asked, acknowledged] <;> omega
  · have hsame : count (incrementCounter redis counters own amount) name = count counters name := by
      match redis with
      | none | some (.fails false) => rfl
      | some .completes | some (.fails true) => exact count_incrby_of_ne counters (Ne.symm hname) _
    simp [hsame, acknowledged, hname]

theorem acknowledged_le_asked (name : CounterName) (increments : List Increment) :
    acknowledged name increments ≤ asked name increments := by
  refine List.sum_le_sum fun increment _ ↦ ?_
  split_ifs with hanswered hasked
  · exact Nat.le_refl _
  · exact absurd ⟨hanswered.1, by rw [hanswered.2]; exact Option.some_ne_none _⟩ hasked
  · exact Nat.zero_le _
  · exact Nat.le_refl _

/-- All calls. -/
theorem count_after (increments : List Increment) (name : CounterName) :
    let next := count (after counters increments) name
    count counters name ≤ next ∧ next ≤ count counters name + asked name increments ∧
      (count counters name + asked name increments ≤ maxCounter →
        count counters name + acknowledged name increments ≤ next) := by
  induction increments generalizing counters with
  | nil => exact ⟨Nat.le_refl _, Nat.le_refl _, fun _ ↦ Nat.le_refl _⟩
  | cons increment rest ih =>
    obtain ⟨hgrows, hasked, hexact⟩ := count_incrementCounter counters increment name
    obtain ⟨hgrowsRest, haskedRest, hexactRest⟩ :=
      ih (incrementCounter increment.redis counters increment.name increment.amount)
    have hle := acknowledged_le_asked name [increment]
    have haskedCons : asked name (increment :: rest) = asked name [increment] + asked name rest := by
      simp [asked]
    have hanswered : acknowledged name (increment :: rest) =
        acknowledged name [increment] + acknowledged name rest := by
      simp [acknowledged]
    rw [haskedCons, hanswered, after_cons]
    refine ⟨by omega, by omega, fun hbound ↦ ?_⟩
    have hfirst := hexact (by omega)
    have hrest := hexactRest (by omega)
    omega

/-- A scrape that reaches Redis finds the count as a number. -/
theorem scraped_metricsText {scrape : Scrape} (h : scrape.redis = some .completes)
    (name : CounterName) :
    scraped (metricsText startedAt scrape counters) name = some (ofRat (count counters name)) := by
  have htotal : total (readCounters scrape.redis counters) name =
      ofRat (count counters name) := by
    rw [total_readCounters, found, if_pos h]
  obtain ⟨help, hsample⟩ : ∃ help, counter name.text help (ofRat (count counters name)) ∈
      samples startedAt scrape counters := by
    rw [← htotal]
    have hcounters : ∃ help, counter name.text help
        (total (readCounters scrape.redis counters) name) ∈
          counterSamples (readCounters scrape.redis counters) := by
      cases name with
      | uploadsTotal => exact ⟨_, List.mem_of_getElem? (i := 0) rfl⟩
      | jobsQueuedTotal => exact ⟨_, List.mem_of_getElem? (i := 1) rfl⟩
      | jobsCompletedTotal => exact ⟨_, List.mem_of_getElem? (i := 2) rfl⟩
      | jobsFailedTotal => exact ⟨_, List.mem_of_getElem? (i := 3) rfl⟩
      | bytesUploadedTotal => exact ⟨_, List.mem_of_getElem? (i := 4) rfl⟩
      | filesCleanedTotal => exact ⟨_, List.mem_of_getElem? (i := 5) rfl⟩
    obtain ⟨help, hmem⟩ := hcounters
    exact ⟨help, List.mem_append_left _ (List.mem_append_left _ hmem)⟩
  have hfound := Metric.find?_family (nodup_metrics startedAt scrape counters)
    (List.mem_map_of_mem hsample)
  rw [List.map_map] at hfound
  have hfamily : ((samples startedAt scrape counters).map Sample.family).find?
      (fun family ↦ family.name = ("file_forge_" ++ name.text).toList) =
        some (counter name.text help (ofRat (count counters name))).family := hfound
  rw [scraped, toList_metricsText, readText_samples]
  simp only [Option.bind_eq_bind, Option.bind_some, hfamily]
  show some (ofText (toText (ofRat (count counters name)))) = _
  rw [ofText_toText]

/-- No counter of Redis. -/
def noCounters : Counters := fun _ ↦ none

/-- Two scrapes in a run of all processes, both of which reach Redis. What they find is the number
nearest to a count; the count does not fall from one to the other, and it grows by no more than was
asked for. As long as Redis can count that far, it grows by what was answered at least. -/
theorem counters_count_up (restartedAt : ℤ) (earlier later : List Increment)
    {first second : Scrape} (hfirst : first.redis = some .completes)
    (hsecond : second.redis = some .completes) (name : CounterName) :
    ∃ seen grown : ℕ,
      scraped (metricsText startedAt first (after noCounters earlier)) name = some (ofRat seen) ∧
      scraped (metricsText restartedAt second (after noCounters (earlier ++ later))) name =
        some (ofRat (seen + grown : ℕ)) ∧
      (ofRat (seen + grown : ℕ)).lt (ofRat seen) = false ∧
      seen ≤ asked name earlier ∧ grown ≤ asked name later ∧
      (asked name earlier + asked name later ≤ maxCounter →
        acknowledged name earlier ≤ seen ∧ acknowledged name later ≤ grown) := by
  have hsplit : after noCounters (earlier ++ later) = after (after noCounters earlier) later :=
    List.foldl_append
  have hnone : count noCounters name = 0 := rfl
  obtain ⟨-, hseen, hexact⟩ := count_after noCounters earlier name
  obtain ⟨hgrows, hgrown, hexactLater⟩ := count_after (after noCounters earlier) later name
  rw [← hsplit] at hgrows hgrown hexactLater
  obtain ⟨grown, hcount⟩ := Nat.exists_eq_add_of_le hgrows
  rw [hcount] at hgrown hexactLater
  rw [hnone] at hseen hexact
  refine ⟨count (after noCounters earlier) name, grown, scraped_metricsText _ _ hfirst name, ?_, ?_,
    by omega, by omega, fun hbound ↦ ?_⟩
  · rw [scraped_metricsText _ _ hsecond name, hcount]
  · exact lt_ofRat_of_le (Nat.cast_nonneg _) (Nat.cast_le.mpr (Nat.le_add_right _ _))
  · have hearlier := hexact (by omega)
    have hlater := hexactLater (by omega)
    omega

/-- Three jobs that finish, of which one is counted without an answer, beside an upload in a process
without Redis. -/
theorem counters_count_up_threeJobs :
    ∃ seen grown : ℕ,
      scraped (metricsText 0 {} (after noCounters [⟨some .completes, .jobsCompletedTotal, 1⟩]))
        .jobsCompletedTotal = some (ofRat seen) ∧
      scraped (metricsText 5000 { now := 9000 } (after noCounters
          ([⟨some .completes, .jobsCompletedTotal, 1⟩] ++
            [⟨some (.fails true), .jobsCompletedTotal, 1⟩, ⟨none, .uploadsTotal, 1⟩,
              ⟨some .completes, .jobsCompletedTotal, 1⟩]))) .jobsCompletedTotal =
        some (ofRat (seen + grown : ℕ)) ∧
      (ofRat (seen + grown : ℕ)).lt (ofRat seen) = false ∧ 1 ≤ seen ∧ 1 ≤ grown := by
  obtain ⟨seen, grown, hfirst, hsecond, horder, -, -, hbound⟩ :=
    counters_count_up 0 5000 [⟨some .completes, .jobsCompletedTotal, 1⟩]
      [⟨some (.fails true), .jobsCompletedTotal, 1⟩, ⟨none, .uploadsTotal, 1⟩,
        ⟨some .completes, .jobsCompletedTotal, 1⟩]
      (rfl : ({} : Scrape).redis = some .completes)
      (rfl : ({ now := 9000 } : Scrape).redis = some .completes) .jobsCompletedTotal
  exact ⟨seen, grown, hfirst, hsecond, horder, hbound (by decide)⟩

end FileForge.Api.Metrics
