import FileForge.Jobs.JobOptions

/-!
# The configuration

`loadConfig` of `src/config.ts`. Every setting is a variable of the environment or has a default;
numbers are coerced from texts, and what they have to be is part of their types, so that a port out
of range is no value of `Config`. What `z.string().url()` takes and the wording of a refusal are the
package's.

`loadConfig_environmentOf` is the round trip: every configuration can be written into an environment
that loads as it. `loadConfig_names` is about every environment: either it is loaded, and no variable
was refused, or the message names the settings that were refused and no others, in their order.
-/

set_option autoImplicit false
set_option relaxedAutoImplicit false

namespace FileForge.Api.Configuration

open Foundation.JsonValue Foundation.EcmaNumber Jobs.JobOptions

/-! ### Settings -/

inductive NodeEnv
  | development
  | test
  | production
  deriving DecidableEq, Repr

def NodeEnv.text : NodeEnv → String
  | .development => "development"
  | .test => "test"
  | .production => "production"

inductive LogLevel
  | fatal
  | error
  | warn
  | info
  | debug
  | trace
  deriving DecidableEq, Repr

def LogLevel.text : LogLevel → String
  | .fatal => "fatal"
  | .error => "error"
  | .warn => "warn"
  | .info => "info"
  | .debug => "debug"
  | .trace => "trace"

/-- `Number.MAX_SAFE_INTEGER`, the greatest integer that `.int()` takes. -/
def maxSafeInteger : ℕ := 2 ^ 53 - 1

abbrev Positive := Bounded 1 maxSafeInteger

structure Config where
  nodeEnv : NodeEnv
  port : Bounded 1 65535
  redisUrl : String
  storageDir : String
  maxUploadBytes : Positive
  logLevel : LogLevel
  downloadSecret : String
  downloadTtlSeconds : Positive
  fileRetentionHours : Positive
  cleanupIntervalMinutes : Positive

/-- `process.env` -/
abbrev Environment := String → Option String

/-- What `zod` decides. -/
structure Package where
  /-- The value that `z.string().url()` makes of a text that it takes. -/
  url : String → Option String
  /-- The messages about a setting that is refused. -/
  messages : (path text : String) → List String

/-- `.default(fallback)` -/
def setting {α : Type} (fallback : α) (read : String → Option α) : Option String → Option α
  | none => some fallback
  | some text => read text

/-- `z.coerce.number().int()` with bounds. -/
def readWhole (low high : ℕ) (text : String) : Option (Bounded low high) :=
  readBounded low high (.string text)

def readNodeEnv (text : String) : Option NodeEnv :=
  readEnum [.development, .test, .production] NodeEnv.text (.string text)

def readLogLevel (text : String) : Option LogLevel :=
  readEnum [.fatal, .error, .warn, .info, .debug, .trace] LogLevel.text (.string text)

/-! ### Loading -/

def nodeEnvOf (env : Environment) : Option NodeEnv :=
  setting .development readNodeEnv (env "NODE_ENV")

def portOf (env : Environment) : Option (Bounded 1 65535) :=
  setting ⟨3000, by decide, by decide⟩ (readWhole 1 65535) (env "PORT")

def redisUrlOf (package : Package) (env : Environment) : Option String :=
  setting "redis://localhost:6379" package.url (env "REDIS_URL")

def storageDirOf (env : Environment) : Option String :=
  setting "./storage" some (env "STORAGE_DIR")

def maxUploadBytesOf (env : Environment) : Option Positive :=
  setting ⟨50 * 1024 * 1024, by decide, by decide⟩ (readWhole 1 maxSafeInteger)
    (env "MAX_UPLOAD_BYTES")

def logLevelOf (env : Environment) : Option LogLevel :=
  setting .info readLogLevel (env "LOG_LEVEL")

def downloadSecretOf (env : Environment) : Option String :=
  setting "" some (env "DOWNLOAD_SECRET")

def downloadTtlSecondsOf (env : Environment) : Option Positive :=
  setting ⟨15 * 60, by decide, by decide⟩ (readWhole 1 maxSafeInteger)
    (env "DOWNLOAD_TTL_SECONDS")

def fileRetentionHoursOf (env : Environment) : Option Positive :=
  setting ⟨24, by decide, by decide⟩ (readWhole 1 maxSafeInteger) (env "FILE_RETENTION_HOURS")

def cleanupIntervalMinutesOf (env : Environment) : Option Positive :=
  setting ⟨60, by decide, by decide⟩ (readWhole 1 maxSafeInteger)
    (env "CLEANUP_INTERVAL_MINUTES")

/-- The settings in the order of the schema: the path, the variable, and whether it is taken. -/
def settings (package : Package) (env : Environment) : List (String × String × Bool) := [
  ("nodeEnv", "NODE_ENV", (nodeEnvOf env).isSome),
  ("port", "PORT", (portOf env).isSome),
  ("redisUrl", "REDIS_URL", (redisUrlOf package env).isSome),
  ("storageDir", "STORAGE_DIR", (storageDirOf env).isSome),
  ("maxUploadBytes", "MAX_UPLOAD_BYTES", (maxUploadBytesOf env).isSome),
  ("logLevel", "LOG_LEVEL", (logLevelOf env).isSome),
  ("downloadSecret", "DOWNLOAD_SECRET", (downloadSecretOf env).isSome),
  ("downloadTtlSeconds", "DOWNLOAD_TTL_SECONDS", (downloadTtlSecondsOf env).isSome),
  ("fileRetentionHours", "FILE_RETENTION_HOURS", (fileRetentionHoursOf env).isSome),
  ("cleanupIntervalMinutes", "CLEANUP_INTERVAL_MINUTES", (cleanupIntervalMinutesOf env).isSome)]

/-- `ConfigSchema.safeParse`, without the issues. -/
def safeParse (package : Package) (env : Environment) : Option Config := do
  let nodeEnv ← nodeEnvOf env
  let port ← portOf env
  let redisUrl ← redisUrlOf package env
  let storageDir ← storageDirOf env
  let maxUploadBytes ← maxUploadBytesOf env
  let logLevel ← logLevelOf env
  let downloadSecret ← downloadSecretOf env
  let downloadTtlSeconds ← downloadTtlSecondsOf env
  let fileRetentionHours ← fileRetentionHoursOf env
  let cleanupIntervalMinutes ← cleanupIntervalMinutesOf env
  return {
    nodeEnv, port, redisUrl, storageDir, maxUploadBytes, logLevel, downloadSecret
    downloadTtlSeconds, fileRetentionHours, cleanupIntervalMinutes }

/-- `parsed.error.issues`, the path and the message of each. -/
def issues (package : Package) (env : Environment) : List (String × String) :=
  (settings package env).flatMap fun (path, name, taken) ↦
    if taken then []
    else (package.messages path ((env name).getD "")).map fun message ↦ (path, message)

def issueLine (issue : String × String) : String := "  " ++ issue.1 ++ ": " ++ issue.2

def loadConfig (package : Package) (env : Environment) : Except String Config :=
  match safeParse package env with
  | some config => .ok config
  | none => .error ("Invalid configuration:\n" ++
      String.intercalate "\n" ((issues package env).map issueLine))

/-! ### The round trip -/

/-- The environment that sets everything. -/
def environmentOf (config : Config) : Environment := fun name ↦
  [("NODE_ENV", config.nodeEnv.text), ("PORT", toString config.port.value),
    ("REDIS_URL", config.redisUrl), ("STORAGE_DIR", config.storageDir),
    ("MAX_UPLOAD_BYTES", toString config.maxUploadBytes.value),
    ("LOG_LEVEL", config.logLevel.text), ("DOWNLOAD_SECRET", config.downloadSecret),
    ("DOWNLOAD_TTL_SECONDS", toString config.downloadTtlSeconds.value),
    ("FILE_RETENTION_HOURS", toString config.fileRetentionHours.value),
    ("CLEANUP_INTERVAL_MINUTES", toString config.cleanupIntervalMinutes.value)].lookup name

theorem bounded_ext {low high : ℕ} {first second : Bounded low high}
    (h : first.value = second.value) : first = second := by
  cases first
  cases second
  cases h
  rfl

/-- A number is read back from its digits. Assumes: a bound that a double can count to. -/
theorem readWhole_toString {low high : ℕ} (hhigh : high ≤ 2 ^ 53) (number : Bounded low high) :
    readWhole low high (toString number.value) = some number := by
  have hbound : |((number.value : ℕ) : ℤ)| ≤ 2 ^ 53 := by
    rw [Nat.abs_cast]
    exact_mod_cast number.le_high.trans hhigh
  have hnumber : coercedNumber (.string (toString number.value)) =
      .finite (Double.ofInt number.value hbound) := by
    show ofText (toString number.value) = _
    rw [ofText_toString, ← ofRat_intCast hbound, Int.cast_natCast]
  have hden : (Double.ofInt number.value hbound).value.den = 1 := Rat.den_intCast _
  have hnum : (Double.ofInt number.value hbound).value.num = number.value := Rat.num_intCast _
  have hvalue : (Double.ofInt number.value hbound).value.num.toNat = number.value := by
    rw [hnum, Int.toNat_natCast]
  rw [readWhole, readBounded, hnumber]
  dsimp only
  have hlow : low ≤ (Double.ofInt number.value hbound).value.num.toNat := by
    rw [hvalue]
    exact number.low_le
  have hle : (Double.ofInt number.value hbound).value.num.toNat ≤ high := by
    rw [hvalue]
    exact number.le_high
  have hsign : 0 ≤ (Double.ofInt number.value hbound).value.num := by
    rw [hnum]
    exact Int.natCast_nonneg _
  rw [dif_pos ⟨hden, hlow, hle, hsign⟩]
  exact congrArg some (bounded_ext hvalue)

theorem readNodeEnv_text (nodeEnv : NodeEnv) : readNodeEnv nodeEnv.text = some nodeEnv := by
  cases nodeEnv <;> rfl

theorem readLogLevel_text (logLevel : LogLevel) : readLogLevel logLevel.text = some logLevel := by
  cases logLevel <;> rfl

/-- Every configuration is what its environment is loaded as. Assumes: an address of Redis that the
package takes as it is. -/
theorem loadConfig_environmentOf (package : Package) (config : Config)
    (hurl : package.url config.redisUrl = some config.redisUrl) :
    loadConfig package (environmentOf config) = .ok config := by
  have hparsed : safeParse package (environmentOf config) = some config := by
    have hnodeEnv : nodeEnvOf (environmentOf config) = some config.nodeEnv :=
      readNodeEnv_text config.nodeEnv
    have hport : portOf (environmentOf config) = some config.port :=
      readWhole_toString (by norm_num) config.port
    have hredisUrl : redisUrlOf package (environmentOf config) = some config.redisUrl := hurl
    have hstorageDir : storageDirOf (environmentOf config) = some config.storageDir := rfl
    have hmaxUploadBytes : maxUploadBytesOf (environmentOf config) = some config.maxUploadBytes :=
      readWhole_toString (by decide) config.maxUploadBytes
    have hlogLevel : logLevelOf (environmentOf config) = some config.logLevel :=
      readLogLevel_text config.logLevel
    have hsecret : downloadSecretOf (environmentOf config) = some config.downloadSecret := rfl
    have hseconds : downloadTtlSecondsOf (environmentOf config) = some config.downloadTtlSeconds :=
      readWhole_toString (by decide) config.downloadTtlSeconds
    have hhours : fileRetentionHoursOf (environmentOf config) = some config.fileRetentionHours :=
      readWhole_toString (by decide) config.fileRetentionHours
    have hminutes : cleanupIntervalMinutesOf (environmentOf config) =
        some config.cleanupIntervalMinutes :=
      readWhole_toString (by decide) config.cleanupIntervalMinutes
    rw [safeParse, hnodeEnv, hport, hredisUrl, hstorageDir, hmaxUploadBytes, hlogLevel, hsecret,
      hseconds, hhours, hminutes]
    rfl
  rw [loadConfig, hparsed]

/-- A package that takes every address, and words the issues of a port that is no number and of a
limit below zero. -/
def plainPackage : Package where
  url := some
  messages path text :=
    if (path, text) = ("port", "abc") then ["Invalid input: expected number, received NaN"]
    else if (path, text) = ("maxUploadBytes", "-1") then ["Too small: expected number to be >0"]
    else ["Invalid input"]

/-- A configuration of a small server. -/
def smallServer : Config where
  nodeEnv := .production
  port := ⟨80, by decide, by decide⟩
  redisUrl := "redis://cache:6379"
  storageDir := "/data"
  maxUploadBytes := ⟨1024, by decide, by decide⟩
  logLevel := .warn
  downloadSecret := "s"
  downloadTtlSeconds := ⟨60, by decide, by decide⟩
  fileRetentionHours := ⟨1, by decide, by decide⟩
  cleanupIntervalMinutes := ⟨5, by decide, by decide⟩

theorem loadConfig_environmentOf_smallServer :
    plainPackage.url smallServer.redisUrl = some smallServer.redisUrl ∧
      loadConfig plainPackage (environmentOf smallServer) = .ok smallServer :=
  ⟨rfl, loadConfig_environmentOf plainPackage smallServer rfl⟩

/-! ### What a refusal names -/

/-- The settings that are refused, each with its variable. -/
def refused (package : Package) (env : Environment) : List (String × String) :=
  (settings package env).filterMap fun (path, name, taken) ↦
    if taken then none else some (path, name)

/-- The settings that a message names: what its lines after the first say before their colon. -/
def named (message : String) : List String :=
  (message.toList.splitOn '\n').tail.map fun line ↦
    String.ofList ((line.drop 2).takeWhile (· ≠ ':'))

theorem isSome_bind_of_forall {α β : Type} {value : Option α} {next : α → Option β} {taken : Bool}
    (h : ∀ result, (next result).isSome = taken) :
    (value >>= next).isSome = (value.isSome && taken) := by
  cases value with
  | none => rfl
  | some result => exact h result

theorem isSome_safeParse (package : Package) (env : Environment) :
    (safeParse package env).isSome = (settings package env).all fun entry ↦ entry.2.2 := by
  have hchain : (safeParse package env).isSome = ((nodeEnvOf env).isSome && ((portOf env).isSome &&
      ((redisUrlOf package env).isSome && ((storageDirOf env).isSome &&
      ((maxUploadBytesOf env).isSome && ((logLevelOf env).isSome &&
      ((downloadSecretOf env).isSome && ((downloadTtlSecondsOf env).isSome &&
      ((fileRetentionHoursOf env).isSome &&
      ((cleanupIntervalMinutesOf env).isSome && true)))))))))) :=
    isSome_bind_of_forall fun _ ↦ isSome_bind_of_forall fun _ ↦ isSome_bind_of_forall fun _ ↦
      isSome_bind_of_forall fun _ ↦ isSome_bind_of_forall fun _ ↦ isSome_bind_of_forall fun _ ↦
      isSome_bind_of_forall fun _ ↦ isSome_bind_of_forall fun _ ↦ isSome_bind_of_forall fun _ ↦
      isSome_bind_of_forall fun _ ↦ rfl
  rw [hchain]
  rfl

theorem paths_of_settings (package : Package) (env : Environment) :
    (settings package env).map (fun entry ↦ (entry.1, entry.2.1)) = [
      ("nodeEnv", "NODE_ENV"), ("port", "PORT"), ("redisUrl", "REDIS_URL"),
      ("storageDir", "STORAGE_DIR"), ("maxUploadBytes", "MAX_UPLOAD_BYTES"),
      ("logLevel", "LOG_LEVEL"), ("downloadSecret", "DOWNLOAD_SECRET"),
      ("downloadTtlSeconds", "DOWNLOAD_TTL_SECONDS"),
      ("fileRetentionHours", "FILE_RETENTION_HOURS"),
      ("cleanupIntervalMinutes", "CLEANUP_INTERVAL_MINUTES")] := rfl

theorem mem_settings_of_mem_refused {package : Package} {env : Environment}
    {entry : String × String} (h : entry ∈ refused package env) :
    entry ∈ (settings package env).map fun entry ↦ (entry.1, entry.2.1) := by
  obtain ⟨⟨path, name, taken⟩, hmem, hrefused⟩ := List.mem_filterMap.mp h
  cases taken with
  | true => cases hrefused
  | false =>
    obtain rfl := Option.some.inj hrefused
    exact List.mem_map.mpr ⟨_, hmem, rfl⟩

/-- A path is a word without a colon. -/
theorem plain_of_mem_refused {package : Package} {env : Environment} {path name : String}
    (h : (path, name) ∈ refused package env) : ∀ c ∈ path.toList, c ≠ ':' ∧ c ≠ '\n' := by
  have hall : ∀ entry ∈ (settings package env).map (fun entry ↦ (entry.1, entry.2.1)),
      (entry.1.toList.all fun c ↦ c ≠ ':' ∧ c ≠ '\n') = true := by
    rw [paths_of_settings]
    decide +kernel
  exact Foundation.EcmaText.forall_mem_of_all (hall _ (mem_settings_of_mem_refused h))

theorem issues_eq (package : Package) (env : Environment) :
    issues package env = (refused package env).flatMap fun entry ↦
      (package.messages entry.1 ((env entry.2).getD "")).map fun message ↦ (entry.1, message) := by
  rw [issues, refused]
  induction settings package env with
  | nil => rfl
  | cons entry rest ih =>
    obtain ⟨path, name, taken⟩ := entry
    rw [List.flatMap_cons, List.filterMap_cons, ih]
    cases taken with
    | true => rfl
    | false => rfl

theorem named_line {path message : String} (h : ∀ c ∈ path.toList, c ≠ ':') :
    String.ofList (((issueLine (path, message)).toList.drop 2).takeWhile (· ≠ ':')) = path := by
  have hline : (issueLine (path, message)).toList =
      ' ' :: ' ' :: (path.toList ++ ':' :: ' ' :: message.toList) := by
    simp [issueLine]
  have hword : ∀ c ∈ path.toList, decide (c ≠ ':') = true := fun c hc ↦ decide_eq_true (h c hc)
  rw [hline, List.drop_succ_cons, List.drop_succ_cons, List.drop_zero,
    List.takeWhile_append_of_pos hword, List.takeWhile_cons_of_neg (by simp), List.append_nil,
    String.ofList_toList]

/-- The first line of the message comes before those of the issues. -/
theorem named_message {issues : List (String × String)} (hne : issues ≠ [])
    (h : ∀ issue ∈ issues,
      (∀ c ∈ issue.1.toList, c ≠ ':' ∧ c ≠ '\n') ∧ '\n' ∉ issue.2.toList) :
    named ("Invalid configuration:\n" ++ String.intercalate "\n" (issues.map issueLine)) =
      issues.map Prod.fst := by
  have hlines : (issues.map issueLine).map String.toList ≠ [] := by simpa using hne
  have hchars : ("Invalid configuration:\n" ++
      String.intercalate "\n" (issues.map issueLine)).toList =
        ['\n'].intercalate ("Invalid configuration:".toList ::
          (issues.map issueLine).map String.toList) := by
    rw [String.toList_append, String.toList_intercalate, List.intercalate_cons_of_ne_nil hlines]
    rfl
  have hplain : ∀ line ∈ "Invalid configuration:".toList ::
      (issues.map issueLine).map String.toList, '\n' ∉ line := by
    intro line hline
    rcases List.mem_cons.mp hline with rfl | hline
    · decide
    · rw [List.map_map] at hline
      obtain ⟨⟨path, message⟩, hissue, rfl⟩ := List.mem_map.mp hline
      obtain ⟨hpath, hmessage⟩ := h _ hissue
      have hword : '\n' ∉ path.toList := fun hmem ↦ (hpath _ hmem).2 rfl
      simp [issueLine, hword, hmessage]
  rw [named, hchars, List.splitOn_intercalate '\n' hplain (List.cons_ne_nil _ _), List.tail_cons,
    List.map_map, List.map_map]
  refine List.map_congr_left fun issue hissue ↦ ?_
  exact named_line fun c hc ↦ ((h issue hissue).1 c hc).1

/-- Every environment is loaded or refused. If it is loaded, no setting was refused. If it is
refused, some were, and the message names them in the order of the schema, each once for every
message about it. Assumes: the package words at least one message about each of them, on one line. -/
theorem loadConfig_names (package : Package) (env : Environment)
    (hmessages : ∀ path text, package.messages path text ≠ [] ∧
      ∀ message ∈ package.messages path text, '\n' ∉ message.toList) :
    ((∃ config, loadConfig package env = .ok config) ∧ refused package env = []) ∨
      ∃ message, loadConfig package env = .error message ∧ refused package env ≠ [] ∧
        named message = (refused package env).flatMap fun entry ↦
          List.replicate (package.messages entry.1 ((env entry.2).getD "")).length entry.1 := by
  have hnone : refused package env = [] ↔
      ((settings package env).all fun entry ↦ entry.2.2) = true := by
    rw [refused, List.filterMap_eq_nil_iff, List.all_eq_true]
    refine forall₂_congr fun entry _ ↦ ?_
    obtain ⟨path, name, taken⟩ := entry
    cases taken <;> simp
  cases hparsed : safeParse package env with
  | some config =>
    refine .inl ⟨⟨config, by rw [loadConfig, hparsed]⟩, hnone.mpr ?_⟩
    rw [← isSome_safeParse, hparsed]
    rfl
  | none =>
    have hrefused : refused package env ≠ [] := by
      intro hempty
      have htaken := hnone.mp hempty
      rw [← isSome_safeParse, hparsed] at htaken
      cases htaken
    refine .inr ⟨_, by rw [loadConfig, hparsed], hrefused, ?_⟩
    have hissues : issues package env ≠ [] := by
      obtain ⟨entry, rest, hentries⟩ := List.exists_cons_of_ne_nil hrefused
      rw [issues_eq, hentries, List.flatMap_cons]
      have hsome := (hmessages entry.1 ((env entry.2).getD "")).1
      simp [hsome]
    rw [named_message hissues, issues_eq, List.map_flatMap]
    · refine List.flatMap_congr fun entry _ ↦ ?_
      rw [List.map_map]
      exact List.map_const
    · intro issue hissue
      rw [issues_eq] at hissue
      obtain ⟨entry, hentry, hmem⟩ := List.mem_flatMap.mp hissue
      obtain ⟨message, hmessage, rfl⟩ := List.mem_map.mp hmem
      exact ⟨plain_of_mem_refused hentry, (hmessages _ _).2 message hmessage⟩

/-- A port that is no number, and a negative limit. -/
def twoMistakes : Environment := fun name ↦
  [("PORT", "abc"), ("MAX_UPLOAD_BYTES", "-1")].lookup name

theorem loadConfig_names_twoMistakes :
    ∃ message, loadConfig plainPackage twoMistakes = .error message ∧
      named message = ["port", "maxUploadBytes"] := by
  have hmessages : ∀ path text, plainPackage.messages path text ≠ [] ∧
      ∀ message ∈ plainPackage.messages path text, '\n' ∉ message.toList := by
    intro path text
    simp only [plainPackage]
    split_ifs <;> exact ⟨List.cons_ne_nil _ _, by decide⟩
  have hrefused : refused plainPackage twoMistakes =
      [("port", "PORT"), ("maxUploadBytes", "MAX_UPLOAD_BYTES")] := by
    decide +kernel
  rcases loadConfig_names plainPackage twoMistakes hmessages with ⟨-, hnone⟩ | ⟨message, hload, -, h⟩
  · rw [hrefused] at hnone
    cases hnone
  · rw [hrefused] at h
    exact ⟨message, hload, h⟩

end FileForge.Api.Configuration
