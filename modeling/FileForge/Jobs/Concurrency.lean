import FileForge.Foundation.Separation
import FileForge.Jobs.Footprint
import FileForge.Jobs.Products

/-!
# Attempts beside each other

A worker runs three jobs at once, and several workers share one storage. An attempt reads the file
of its upload and the product that it has stored itself, and it writes its product; uploads keep the
name that was generated for them, and a product has the identifier of its attempt in its name
(`IsProductName`). So no attempt reads what another writes, as long as no two of them draw the same
identifier.

`attempts_do_not_meet` is what follows for any number of attempts, however their calls are mixed and
whichever of them fail: an attempt ends as it would have ended alone, or with an error after a call
of its own that has failed; the product of each that has a result is stored; and no other file has
changed. The records in Redis are taken to stay as they are meanwhile.
-/

set_option autoImplicit false
set_option relaxedAutoImplicit false

namespace FileForge.Jobs.Concurrency

open Foundation Foundation.JsonValue Foundation.Interaction Foundation.PosixPath
open Foundation.Interleaving Foundation.RelyGuarantee Foundation.Separation
open Foundation.Interruption Foundation.WeakestPrecondition
open Foundation.EcmaText (forall_mem_of_all)
open Foundation.FileTree (Bytes)
open Shared.Contract Files.Repository Csv Errors JobOptions Processors Attempts HopelessJobs
open KeyLayout Products
open Worker (ProcessorResult)
open Storage.LocalStorage (StoredFile)

/-! ### Names -/

/-- A name that ends with the start of an identifier and an extension. In front of them it has a
character that no identifier of an upload has. -/
def IsProductName (fresh : OutputKeys.IdStart) (name : String) : Prop :=
  ∃ stem ext : List Char, name.toList = stem ++ '-' :: (fresh.text.toList ++ '.' :: ext) ∧
    '-' ∉ ext ∧ ∃ c ∈ stem, ¬ IsIdChar c

/-- What follows the last dash. -/
theorem eq_of_last_dash {first second before after : List Char} (hbefore : '-' ∉ before)
    (hafter : '-' ∉ after) (h : first ++ '-' :: before = second ++ '-' :: after) :
    before = after := by
  have hlast : ∀ (front rest : List Char), '-' ∉ rest →
      ((front ++ '-' :: rest).reverse.takeWhile fun c ↦ decide (c ≠ '-')) = rest.reverse := by
    intro front rest hrest
    have hplain : ∀ c ∈ rest.reverse, decide (c ≠ '-') = true := by
      intro c hc
      apply decide_eq_true
      rintro rfl
      exact hrest (List.mem_reverse.mp hc)
    rw [List.reverse_append, List.reverse_cons, List.append_assoc, List.singleton_append,
      List.takeWhile_append_of_pos hplain, List.takeWhile_cons_of_neg (by simp), List.append_nil]
  have hboth := hlast first before hbefore
  rw [h, hlast second after hafter] at hboth
  exact List.reverse_injective hboth.symm

theorem dash_notMem (fresh : OutputKeys.IdStart) {ext : List Char} (hext : '-' ∉ ext) :
    '-' ∉ fresh.text.toList ++ '.' :: ext := by
  have hchars : ∀ c ∈ fresh.text.toList, c ≠ '-' := by
    refine fresh.forall_mem (fun c hdigit ↦ ?_) (forall_mem_of_all (by decide))
    rintro rfl
    exact absurd hdigit (by decide)
  refine List.not_mem_append (fun hmem ↦ hchars '-' hmem rfl) fun hmem ↦ ?_
  rcases List.mem_cons.mp hmem with hdot | hrest
  · exact absurd hdot (by decide)
  · exact hext hrest

/-- A product is one of one attempt. -/
theorem IsProductName.unique {fresh other : OutputKeys.IdStart} {name : String}
    (h : IsProductName fresh name) (hother : IsProductName other name) : fresh = other := by
  obtain ⟨stem, ext, hname, hext, -⟩ := h
  obtain ⟨stem', ext', hname', hext', -⟩ := hother
  have hrest := eq_of_last_dash (dash_notMem fresh hext) (dash_notMem other hext')
    (hname.symm.trans hname')
  have hlength : fresh.text.toList.length = other.text.toList.length := by
    rw [String.length_toList, String.length_toList, fresh.length, other.length]
  have htext := String.toList_inj.mp (List.append_inj hrest hlength).1
  cases fresh
  cases other
  cases htext
  rfl

/-- An upload is no product. -/
theorem not_isProductName_upload (id : Uuid) {ext : List Char} (hext : IsExtension ext)
    (fresh : OutputKeys.IdStart) : ¬ IsProductName fresh (id.text ++ String.ofList ext) := by
  rintro ⟨stem, rest, hname, -, c, hc, hforeign⟩
  rw [String.toList_append, String.toList_ofList] at hname
  rcases hext with rfl | ⟨tail, rfl, htail, -⟩
  · apply id.notMem.1
    rw [List.append_nil] at hname
    rw [hname]
    simp
  · -- there is one dot on the left, so that the identifier is all that comes before the extension
    have hstem : '.' ∉ stem := by
      intro hdot
      have hcount := congrArg (List.count '.') hname
      rw [List.count_append, List.count_cons_self, List.count_eq_zero.mpr id.notMem.1,
        List.count_eq_zero.mpr htail, List.count_append] at hcount
      have hpos := List.count_pos_iff.mpr hdot
      have hsecond : 0 < ('-' :: (fresh.text.toList ++ '.' :: rest)).count '.' :=
        List.count_pos_iff.mpr (by simp)
      omega
    have hsplit : id.text.toList <+: stem ∨ stem <+: id.text.toList :=
      List.prefix_or_prefix_of_prefix ⟨_, hname⟩ (List.prefix_append _ _)
    rcases hsplit with ⟨more, hmore⟩ | hfront
    · rw [← hmore, List.append_assoc, List.append_cancel_left_eq] at hname
      cases more with
      | nil => exact absurd (List.cons.inj hname).1 (by decide)
      | cons d others =>
        apply hstem
        rw [← hmore, ← (List.cons.inj hname).1]
        simp
    · exact hforeign (id.chars c (hfront.subset hc))

/-! ### Keys of products -/

/-- An extension behind an identifier. -/
def IsProductExtension (ext : String) : Prop :=
  ext.toList.head? = some '.' ∧ '-' ∉ ext.toList ∧ '/' ∉ ext.toList

instance : DecidablePred IsProductExtension := fun _ ↦ inferInstanceAs (Decidable (_ ∧ _))

/-- What an operation adds to the key of its product. -/
structure IsProductSuffix (suffix ext : String) : Prop where
  plain : '/' ∉ suffix.toList
  foreign : ∃ c ∈ suffix.toList, ¬ IsIdChar c
  extension : IsProductExtension ext

theorem isProductSuffix_of_isImageWork {work : ImageWork} (h : IsImageWork work)
    (metadata : Metadata) : IsProductSuffix work.suffix (work.ext metadata) := by
  have hall : ∀ entry ∈ formatExtensions, IsProductExtension entry.2 := by decide
  have hplain := (h.plain metadata).1
  cases h with
  | resize options =>
    have hforeign : 'z' ∈ "resized".toList := by decide
    exact ⟨hplain, ⟨'z', hforeign, by decide⟩, extension_of_forall hall _ (by decide)⟩
  | convert options =>
    refine ⟨hplain, ?_, extension_of_forall hall _ (by decide)⟩
    show ∃ c ∈ options.format.text.toList, ¬ IsIdChar c
    cases options.format with
    | jpeg => exact ⟨'j', by decide, by decide⟩
    | png => exact ⟨'p', by decide, by decide⟩
    | webp => exact ⟨'w', by decide, by decide⟩
    | avif => exact ⟨'v', by decide, by decide⟩
  | thumbnail options =>
    have hext : IsProductExtension ".webp" := by decide
    refine ⟨hplain, ⟨'t', ?_, by decide⟩, hext⟩
    show 't' ∈ ("thumb" ++ toString options.size.value).toList
    rw [String.toList_append]
    exact List.mem_append_left _ (by decide)

theorem isProductSuffix_csv (kind : OutputKeys.Product) :
    IsProductSuffix kind.suffix kind.ext := by
  cases kind with
  | report => exact ⟨by decide, ⟨'r', by decide, by decide⟩, by decide⟩
  | clean => exact ⟨by decide, ⟨'l', by decide, by decide⟩, by decide⟩

/-- A name, or the last name of a path. -/
theorem exists_last_part (text : List Char) :
    '/' ∉ text ∨ ∃ front tail, text = front ++ '/' :: tail ∧ '/' ∉ tail := by
  by_cases h : '/' ∈ text
  · obtain ⟨before, after, hsplit, hbefore⟩ := List.eq_append_cons_of_mem (List.mem_reverse.mpr h)
    refine Or.inr ⟨after.reverse, before.reverse, ?_, fun hmem ↦ hbefore (List.mem_reverse.mp hmem)⟩
    rw [← List.reverse_reverse text, hsplit]
    simp
  · exact Or.inl h

/-- What an operation puts behind the base of a key. -/
theorem isProductName_append {suffix ext : String} (h : IsProductSuffix suffix ext)
    (fresh : OutputKeys.IdStart) {base : String} (hbase : '/' ∉ base.toList) :
    IsProductName fresh (base ++ "-" ++ suffix ++ "-" ++ fresh.text ++ ext) ∧
      IsName (base ++ "-" ++ suffix ++ "-" ++ fresh.text ++ ext) := by
  obtain ⟨hplain, ⟨c, hc, hforeign⟩, hhead, hdash, hslash⟩ := h
  obtain ⟨rest, hext⟩ : ∃ rest, ext.toList = '.' :: rest := by
    cases hchars : ext.toList with
    | nil => simp [hchars] at hhead
    | cons d rest =>
      rw [hchars, List.head?_cons, Option.some.injEq] at hhead
      exact ⟨rest, by rw [hhead]⟩
  rw [hext] at hdash
  have hfresh : '/' ∉ fresh.text.toList := by
    have hchars : ∀ d ∈ fresh.text.toList, d ≠ '/' := by
      refine fresh.forall_mem (fun d hdigit ↦ ?_) (forall_mem_of_all (by decide))
      rintro rfl
      exact absurd hdigit (by decide)
    exact fun hmem ↦ hchars '/' hmem rfl
  constructor
  · refine ⟨base.toList ++ '-' :: suffix.toList, rest, ?_,
      fun hmem ↦ hdash (List.mem_cons_of_mem _ hmem), c, by simp [hc], hforeign⟩
    simp [String.toList_append, hext]
  · refine isName_of_mem (by simp [String.toList_append]) (by decide : '-' ≠ '.') ?_
    simp only [String.toList_append, List.mem_append, not_or]
    exact ⟨⟨⟨⟨⟨hbase, by decide⟩, hplain⟩, by decide⟩, hfresh⟩, hslash⟩

/-! ### Paths of products -/

/-- The path of a product. -/
def Produced (fresh : OutputKeys.IdStart) (path : AbsolutePath) : Prop :=
  ∃ name ∈ path.segments.getLast?, IsProductName fresh name

theorem Produced.unique {fresh other : OutputKeys.IdStart} {path : AbsolutePath}
    (h : Produced fresh path) (hother : Produced other path) : fresh = other := by
  obtain ⟨name, hname, hproduct⟩ := h
  obtain ⟨name', hname', hproduct'⟩ := hother
  obtain rfl := Option.mem_unique hname hname'
  exact hproduct.unique hproduct'

/-- The last name of a key is the last name of its path. -/
theorem getLast?_of_resolved {root path : AbsolutePath} (directory : String) {name : String}
    (hname : IsName name) (h : resolved root (directory ++ "/" ++ name) = .ok path) :
    path.segments.getLast? = some name := by
  have hpath : path.segments = (splitSlash (directory ++ "/" ++ name)).foldl pushSegment
      root.segments := by
    rw [Storage.LocalStorage.pathFor_eq_ok (pathFor_of_resolved h)]
    exact resolve_join_segments root _
  rw [hpath, splitSlash_append, splitSlash_of_slash_not_mem hname.2.2.2, List.foldl_append,
    foldl_pushSegment_of_names (List.forall_mem_singleton.mpr hname), List.getLast?_concat]

/-- The product of an attempt, whatever the base of its key. -/
theorem produced_of_resolved {root path : AbsolutePath} {base suffix ext : String}
    (h : IsProductSuffix suffix ext) {fresh : OutputKeys.IdStart}
    (hpath : resolved root ("outputs/" ++ base ++ "-" ++ suffix ++ "-" ++ fresh.text ++ ext) =
      .ok path) : Produced fresh path := by
  rcases exists_last_part base.toList with hbase | ⟨front, tail, hbase, htail⟩
  · obtain ⟨hproduct, hname⟩ := isProductName_append h fresh hbase
    have hkey : "outputs/" ++ base ++ "-" ++ suffix ++ "-" ++ fresh.text ++ ext =
        "outputs" ++ "/" ++ (base ++ "-" ++ suffix ++ "-" ++ fresh.text ++ ext) := by
      rw [← String.toList_inj]
      simp [String.toList_append]
    rw [hkey] at hpath
    exact ⟨_, getLast?_of_resolved "outputs" hname hpath, hproduct⟩
  · obtain ⟨hproduct, hname⟩ := isProductName_append h fresh
      (by rw [String.toList_ofList]; exact htail : '/' ∉ (String.ofList tail).toList)
    have hkey : "outputs/" ++ base ++ "-" ++ suffix ++ "-" ++ fresh.text ++ ext =
        "outputs/" ++ String.ofList front ++ "/" ++
          (String.ofList tail ++ "-" ++ suffix ++ "-" ++ fresh.text ++ ext) := by
      rw [← String.toList_inj]
      simp [String.toList_append, hbase]
    rw [hkey] at hpath
    exact ⟨_, getLast?_of_resolved _ hname hpath, hproduct⟩

/-- The product of an attempt on an upload. -/
theorem produced_of_image {root path : AbsolutePath} {record : FileRecord} (h : Uploaded record)
    {work : ImageWork} (hwork : IsImageWork work) (metadata : Metadata)
    {fresh : OutputKeys.IdStart}
    (hpath : resolved root (imageKey record.storageKey work.suffix (work.ext metadata) fresh) =
      .ok path) : Produced fresh path := by
  obtain ⟨id, final, recordId, now, name, -, hkey⟩ := h
  rw [hkey, imageKey_storageKeyFor] at hpath
  exact produced_of_resolved (isProductSuffix_of_isImageWork hwork metadata) hpath

theorem produced_of_csv {root path : AbsolutePath} {originalName : String}
    (kind : OutputKeys.Product) {fresh : OutputKeys.IdStart}
    (hpath : resolved root (OutputKeys.outputKey originalName kind.suffix kind.ext fresh) =
      .ok path) : Produced fresh path :=
  produced_of_resolved (isProductSuffix_csv kind) hpath

/-- The file of an upload is no product. -/
theorem not_produced_of_upload {root path : AbsolutePath} {record : FileRecord}
    (h : Uploaded record) (hpath : resolved root record.storageKey = .ok path)
    (fresh : OutputKeys.IdStart) : ¬ Produced fresh path := by
  rintro ⟨name, hname, hproduct⟩
  obtain ⟨id, final, recordId, now, original, -, hkey⟩ := h
  obtain ⟨ext, hext, -, hstored⟩ := exists_extension id final recordId now record.originalName
  have hsplit : record.storageKey = "uploads" ++ "/" ++ (id.text ++ String.ofList ext) := by
    rw [hkey, hstored, ← String.toList_inj]
    simp [String.toList_append]
  have hslash : '/' ∉ (id.text ++ String.ofList ext).toList := by
    rw [String.toList_append, String.toList_ofList]
    refine List.not_mem_append id.notMem.2 ?_
    rcases hext with rfl | ⟨rest, rfl, -, hrest⟩
    · exact List.not_mem_nil
    · simpa using hrest
  rw [hsplit] at hpath
  rw [getLast?_of_resolved "uploads" (isName_append id hslash) hpath, Option.mem_some] at hname
  exact not_isProductName_upload id hext fresh (hname ▸ hproduct)

/-! ### What an attempt sees -/

/-- Everything but the products of the others. -/
def Sees (owner : Option OutputKeys.IdStart) (path : AbsolutePath) : Prop :=
  ∀ fresh, Produced fresh path → owner = some fresh

/-- The same files, as far as the owner sees them. -/
def Same (owner : Option OutputKeys.IdStart) (first second : Held) : Prop :=
  ∀ path, Sees owner path → first.files path = second.files path

/-- The file that a chain reads. -/
def source : Chain → Option AbsolutePath
  | .probe source | .rewriteImage source _ _ | .readBack source | .inspect source _
  | .rewriteCsv source _ _ => some source
  | .writeReport _ _ => none

/-- The calls of an attempt: it reads what it sees, and writes its product. -/
def Allowed (owner : Option OutputKeys.IdStart) : Call → Prop
  | .stat path => Sees owner path
  | .chain chain => (∀ path ∈ source chain, Sees owner path) ∧
      ∀ path ∈ target chain, ∃ fresh, owner = some fresh ∧ Produced fresh path
  | .redisGet _ | .updateProgress _ | .mkdir _ => True

/-- All records are those of uploads. -/
def Possible : (request : Call) → Reply request → Prop
  | .redisGet key, reply => ∀ fileId value record, key = keyFor fileId → reply = some (some value) →
      FileRecordSchema.safeParse value = some record → Uploaded record
  | _, _ => True

theorem sees_of_produced {fresh : OutputKeys.IdStart} {path : AbsolutePath}
    (h : Produced fresh path) : Sees (some fresh) path :=
  fun _ hother ↦ congrArg some (h.unique hother)

theorem sees_of_upload {root path : AbsolutePath} {record : FileRecord} (h : Uploaded record)
    (hpath : resolved root record.storageKey = .ok path) (owner : Option OutputKeys.IdStart) :
    Sees owner path :=
  fun fresh hproduced ↦ absurd hproduced (not_produced_of_upload h hpath fresh)

/-! ### The answers -/

section Answers

variable {env : Env} {owner : Option OutputKeys.IdStart} {first second : Held}

theorem same_equivalence : Equivalence (Same owner) where
  refl _ _ _ := rfl
  symm h path hpath := (h path hpath).symm
  trans hfirst hsecond path hpath := (hfirst path hpath).trans (hsecond path hpath)

theorem Same.write (h : Same owner first second) (path : AbsolutePath) (bytes : Bytes) :
    Same owner (first.write path bytes) (second.write path bytes) := by
  intro other hother
  show Function.update first.files path (some bytes) other =
    Function.update second.files path (some bytes) other
  by_cases heq : other = path
  · rw [heq, Function.update_self, Function.update_self]
  · rw [Function.update_of_ne heq, Function.update_of_ne heq, h other hother]

/-- A chain that fails leaves the same in both states. -/
theorem Same.leave (h : Same owner first second) (request : Call) (left : Chain → Option Bytes) :
    Same owner (first.leave request left) (second.leave request left) := by
  unfold Held.leave
  split
  · split
    · exact h.write _ _
    · exact h
  · exact h

theorem readSource_same (h : Same owner first second) (name : ChainName) {path : AbsolutePath}
    (hpath : Sees owner path) :
    readSource name first.files path = readSource name second.files path := by
  rw [readSource, readSource, h path hpath]

/-- A chain that reads what the owner sees does the same in both states. -/
theorem flow_same (h : Same owner first second) {chain : Chain}
    (hsource : ∀ path ∈ source chain, Sees owner path) :
    (env.flow chain first).1 = (env.flow chain second).1 ∧
      Same owner (env.flow chain first).2 (env.flow chain second).2 := by
  cases chain with
  | probe path =>
    exact ⟨by simp only [Env.flow, probed, readSource_same h .probe (hsource path rfl)], h⟩
  | readBack path => exact ⟨readSource_same h .readBack (hsource path rfl), h⟩
  | inspect path options =>
    exact ⟨by simp only [Env.flow, inspected, readSource_same h .inspect (hsource path rfl)], h⟩
  | writeReport report path => exact ⟨rfl, h.write path _⟩
  | rewriteImage path edit found =>
    have hsame : edited env.packages first.files path edit =
        edited env.packages second.files path edit := by
      rw [edited, edited, readSource_same h .rewriteImage (hsource path rfl)]
    simp only [Env.flow, hsame]
    cases edited env.packages second.files path edit with
    | ok bytes => exact ⟨rfl, h.write found bytes⟩
    | error fault => exact ⟨rfl, h.leave _ _⟩
  | rewriteCsv path options found =>
    have hsame : reshaped env.packages first.files path options =
        reshaped env.packages second.files path options := by
      rw [reshaped, reshaped, readSource_same h .rewriteCsv (hsource path rfl)]
    simp only [Env.flow, hsame]
    cases reshaped env.packages second.files path options with
    | ok written => exact ⟨rfl, h.write found written.2⟩
    | error fault => exact ⟨rfl, h.leave _ _⟩

theorem answer_same (h : Same owner first second) {request : Call}
    (hrequest : Allowed owner request) :
    (env.answer request first).1 = (env.answer request second).1 ∧
      Same owner (env.answer request first).2 (env.answer request second).2 := by
  cases request with
  | redisGet key => exact ⟨rfl, h⟩
  | updateProgress value => exact ⟨rfl, h⟩
  | mkdir directory => exact ⟨rfl, h⟩
  | chain chain => exact flow_same h hrequest.1
  | stat path =>
    simp only [Env.answer, h path hrequest]
    cases second.files path with
    | some bytes => exact ⟨rfl, h⟩
    | none => exact ⟨rfl, h⟩

/-- What a call leaves alone, if it writes only products of another. -/
theorem not_target {other : Option OutputKeys.IdStart} (hne : owner ≠ other) {request : Call}
    (hrequest : Allowed other request) {path : AbsolutePath} (hpath : Sees owner path) :
    ∀ chain, request = .chain chain → target chain ≠ some path := by
  rintro chain rfl htarget
  obtain ⟨fresh, hother, hproduced⟩ := hrequest.2 path htarget
  exact hne ((hpath fresh hproduced).trans hother.symm)

end Answers

/-! ### Attempts beside each other -/

/-- What becomes of a call. A chain that fails may leave something at its target. -/
inductive Fate
  | works
  | fails (fault : Fault) (left : Option Bytes)

/-- The answers to the calls of all attempts. -/
def beside (env : Env) (fates : ℕ → Fate) : Program.World Call Reply Fault Held :=
  fun calls request held ↦
    match fates calls with
    | .works => env.answer request held
    | .fails fault left => (.error fault, held.leave request fun _ ↦ left)

theorem files_beside (env : Env) (fates : ℕ → Fate) (calls : ℕ) (request : Call) (held : Held)
    {path : AbsolutePath} (hpath : ∀ chain, request = .chain chain → target chain ≠ some path) :
    (beside env fates calls request held).2.files path = held.files path := by
  unfold beside
  split
  · exact Footprint.files_answer env request held path hpath
  · exact Footprint.files_leave held request _ path hpath

/-- Attempts with different identifiers do not meet. Assumes: records of uploads. -/
theorem apart_beside (env : Env) (fates : ℕ → Fate)
    (huploaded : ∀ fileId record, recordOf env fileId = .ok (some record) → Uploaded record) :
    Apart (beside env fates) env.answer Allowed Possible Same where
  equivalence _ := same_equivalence
  replies request state reply hreply := by
    cases request with
    | redisGet key =>
      rintro fileId value record rfl rfl hrecord
      apply huploaded fileId record
      have hget : ExpiringStore.get env.db env.now (keyFor fileId) = some (some value) :=
        Except.ok.inj hreply
      simp [recordOf, Files.Repository.get, hget, hrecord]
    | _ => trivial
  fails calls request state hne := by
    unfold beside at hne ⊢
    cases hfate : fates calls with
    | works => simp [hfate] at hne
    | fails fault left => exact ⟨fault, rfl⟩
  own owner request first second hrequest h := answer_same h hrequest
  others owner other calls request state hne hrequest path hpath :=
    (files_beside env fates calls request state (not_target hne hrequest hpath)).symm

/-! ### The calls of the processors -/

abbrev Stays (owner : Option OutputKeys.IdStart) {α : Type} (post : α → Prop)
    (program : JobTask α) : Prop :=
  Confined (Allowed owner) Possible post program

section Parts

variable {owner : Option OutputKeys.IdStart}

theorem stays_call (request : Call) (hrequest : Allowed owner request) :
    Stays owner (fun _ ↦ True) (Program.perform request : JobTask (Reply request)) :=
  confined_perform hrequest fun _ _ ↦ trivial

theorem stays_updateProgress (value : ℕ) :
    Stays owner (fun _ ↦ True) (updateProgress value) := stays_call (.updateProgress value) trivial

theorem stays_findRecord (args : ProcessorArgs) : Stays owner Uploaded (findRecord args) := by
  have hget : Stays owner (fun found ↦ ∀ record, found = some record → Uploaded record)
      (getRecord args.payload.fileId) := by
    refine confined_bind (confined_perform trivial fun reply hreply ↦ hreply) fun raw hraw ↦ ?_
    rcases raw with _ | _ | value
    · exact .ok fun record hrecord ↦ by cases hrecord
    · exact .error _
    · exact .ok fun record hrecord ↦ hraw _ value record rfl rfl hrecord
  refine confined_bind hget fun found hfound ↦ ?_
  cases found with
  | none => exact .error _
  | some record => exact .ok (hfound record rfl)

theorem stays_resolveKey {root : AbsolutePath} {key : String} {post : AbsolutePath → Prop}
    (hkey : ∀ path, resolved root key = .ok path → post path) :
    Stays owner post (resolveKey root key) := by
  rw [resolveKey]
  cases hresolved : resolved root key with
  | ok path => exact .ok (hkey path hresolved)
  | error error => exact .error _

theorem stays_openStream {root : AbsolutePath} {key : String}
    (hkey : ∀ path, resolved root key = .ok path → Sees owner path) :
    Stays owner (Sees owner) (openStream root key) :=
  confined_bind (stays_resolveKey hkey) fun path hpath ↦
    confined_bind (stays_call (.stat path) hpath) fun _ _ ↦ .ok hpath

theorem stays_source (args : ProcessorArgs) {record : FileRecord} (hrecord : Uploaded record) :
    Stays owner (Sees owner) (openStream args.root record.storageKey) :=
  stays_openStream fun _ hpath ↦ sees_of_upload hrecord hpath owner

variable {root : AbsolutePath} {fresh : OutputKeys.IdStart}

theorem stays_prepareTarget {key : String}
    (hkey : ∀ path, resolved root key = .ok path → Produced fresh path) :
    Stays owner (Produced fresh) (prepareTarget root key) :=
  confined_bind (stays_resolveKey hkey) fun path hpath ↦
    confined_bind (stays_call (.mkdir path.dirname) trivial) fun _ _ ↦ .ok hpath

theorem stays_storedAt {key : String} {path : AbsolutePath} (hpath : Produced fresh path) :
    Stays (some fresh) (fun stored ↦ stored.key = key) (storedAt key path) :=
  confined_bind (stays_call (.stat path) (sees_of_produced hpath)) fun _ _ ↦ .ok rfl

/-- A chain that reads what the attempt sees. -/
theorem stays_readChain (chain : Chain) {path : AbsolutePath} (hsource : source chain = some path)
    (hpath : Sees owner path) (htarget : target chain = none) :
    Stays owner (fun _ ↦ True) (awaitChain chain) := by
  refine stays_call (.chain chain) ⟨fun other hother ↦ ?_, fun other hother ↦ ?_⟩
  · rw [hsource, Option.mem_some] at hother
    exact hother ▸ hpath
  · rw [htarget] at hother
    cases hother

/-- A chain from what the attempt sees to its product. -/
theorem stays_writeChain (chain : Chain) {path : AbsolutePath}
    (hsource : ∀ path ∈ source chain, Sees (some fresh) path) (htarget : target chain = some path)
    (hpath : Produced fresh path) : Stays (some fresh) (fun _ ↦ True) (awaitChain chain) := by
  refine stays_call (.chain chain) ⟨hsource, fun other hother ↦ ⟨fresh, rfl, ?_⟩⟩
  rw [htarget, Option.mem_some] at hother
  exact hother ▸ hpath

theorem stays_rethrowing {α : Type} {post : α → Prop} (label : JobError → JobError)
    {body : JobTask α} (hbody : Stays owner post body) :
    Stays owner post (rethrowing label body) :=
  confined_rethrow (Fault.relabel label) hbody

theorem stays_usable {Options : Type} (args : ProcessorArgs) (name : String)
    (parsed : Option Options) : Stays owner (fun _ ↦ True) (usable args name parsed) := by
  cases parsed with
  | none => exact .error _
  | some options => exact .ok trivial

theorem stays_done (result : ProcessorResult) : Stays owner (fun _ ↦ True) (do
    updateProgress 100
    return result) :=
  confined_bind (stays_updateProgress 100) fun _ _ ↦ .ok trivial

end Parts

section Processors

variable (args : ProcessorArgs)

theorem stays_openImage : Stays (some args.fresh) (fun _ ↦ True) (openImage args) := by
  refine confined_bind (stays_findRecord args) fun record hrecord ↦ ?_
  have hprobe : Stays (some args.fresh) (fun _ ↦ True) (probeImage args record) := by
    exact confined_bind (stays_source args hrecord) fun path hpath ↦
      stays_readChain (.probe path) rfl hpath rfl
  refine confined_bind (stays_rethrowing _ hprobe) fun metadata _ ↦ ?_
  split_ifs
  · exact .ok trivial
  · exact .error _

/-- The result is stored under the key of a product. -/
theorem stays_runPipeline {work : ImageWork} (hwork : IsImageWork work) (metadata : Metadata) :
    Stays (some args.fresh)
      (fun stored ↦ ∀ path, resolved args.root stored.key = .ok path → Produced args.fresh path)
      (runPipeline args work.edit work.suffix (work.ext metadata)) := by
  refine confined_bind (stays_findRecord args) fun record hrecord ↦ ?_
  have hkey : ∀ path, resolved args.root (imageKey record.storageKey work.suffix
      (work.ext metadata) args.fresh) = .ok path → Produced args.fresh path :=
    fun _ ↦ produced_of_image hrecord hwork metadata
  refine confined_bind (stays_source args hrecord) fun path hpath ↦ ?_
  refine confined_bind (stays_updateProgress 40) fun _ _ ↦ ?_
  refine confined_bind (stays_prepareTarget hkey) fun found hfound ↦ ?_
  refine confined_bind (stays_writeChain (.rewriteImage path work.edit found)
    (fun other hother ↦ ?_) rfl hfound) fun _ _ ↦ ?_
  · rw [source, Option.mem_some] at hother
    exact hother ▸ hpath
  refine confined_bind (stays_storedAt hfound) fun stored hstored ↦ ?_
  refine confined_bind (stays_updateProgress 90) fun _ _ ↦ .ok fun other hother ↦ ?_
  rw [hstored] at hother
  exact hkey other hother

/-- An image operation with what it does after its result is stored. -/
theorem stays_image {Options : Type} {name : String} {parsed : Option Options}
    {work : Options → ImageWork} (hwork : ∀ options, IsImageWork (work options))
    {rest : Options → Metadata → StoredFile → JobTask ProcessorResult}
    (hrest : ∀ options metadata stored,
      (∀ path, resolved args.root stored.key = .ok path → Produced args.fresh path) →
        Stays (some args.fresh) (fun _ ↦ True) (rest options metadata stored)) :
    Stays (some args.fresh) (fun _ ↦ True) (do
      let options ← usable args name parsed
      let metadata ← openImage args
      updateProgress 20
      let stored ← runPipeline args (work options).edit (work options).suffix
        ((work options).ext metadata)
      rest options metadata stored) := by
  refine confined_bind (stays_usable args _ _) fun options _ ↦ ?_
  refine confined_bind (stays_openImage args) fun metadata _ ↦ ?_
  refine confined_bind (stays_updateProgress 20) fun _ _ ↦ ?_
  exact confined_bind (stays_runPipeline args (hwork options) metadata) (hrest options metadata)

theorem stays_readBack {key : String}
    (hkey : ∀ path, resolved args.root key = .ok path → Produced args.fresh path) :
    Stays (some args.fresh) (fun _ ↦ True) (readBack args key) := by
  refine confined_bind (stays_openStream fun path hpath ↦ sees_of_produced (hkey path hpath))
    fun path hpath ↦ ?_
  exact confined_bind (stays_readChain (.readBack path) rfl hpath rfl) fun _ _ ↦
    confined_ofExcept fun _ _ ↦ trivial

theorem stays_validateCsv : Stays (some args.fresh) (fun _ ↦ True) (validateCsv args) := by
  refine confined_bind (stays_usable args _ _) fun options _ ↦ ?_
  refine confined_bind (stays_findRecord args) fun record hrecord ↦ ?_
  refine confined_bind (stays_updateProgress 10) fun _ _ ↦ ?_
  have hinspect : Stays (some args.fresh) (fun _ ↦ True) (inspectSource args record options) := by
    exact confined_bind (stays_source args hrecord) fun path hpath ↦
      stays_readChain (.inspect path options) rfl hpath rfl
  refine confined_bind (stays_rethrowing _ hinspect) fun report _ ↦ ?_
  refine confined_bind (stays_updateProgress 80) fun _ _ ↦ ?_
  refine confined_bind (stays_prepareTarget fun path ↦ produced_of_csv .report) fun path hpath ↦ ?_
  refine confined_bind (stays_writeChain (.writeReport report path)
    (fun other hother ↦ by cases hother) rfl hpath) fun _ _ ↦ ?_
  exact confined_bind (stays_storedAt hpath) fun _ _ ↦ stays_done _

theorem stays_transformCsv : Stays (some args.fresh) (fun _ ↦ True) (transformCsv args) := by
  refine confined_bind (stays_usable args _ _) fun options _ ↦ ?_
  refine confined_bind (stays_findRecord args) fun record hrecord ↦ ?_
  refine confined_bind (stays_updateProgress 10) fun _ _ ↦ ?_
  have hrewrite : Stays (some args.fresh) (fun _ ↦ True) (rewriteSource args record options) := by
    refine confined_bind (stays_source args hrecord) fun path hpath ↦ ?_
    refine confined_bind (stays_prepareTarget fun path ↦ produced_of_csv .clean)
      fun found hfound ↦ ?_
    refine confined_bind (stays_writeChain (.rewriteCsv path options found)
      (fun other hother ↦ ?_) rfl hfound) fun _ _ ↦ ?_
    · rw [source, Option.mem_some] at hother
      exact hother ▸ hpath
    · exact confined_bind (stays_storedAt hfound) fun _ _ ↦ .ok trivial
  exact confined_bind (stays_rethrowing _ hrewrite) fun _ _ ↦ stays_done _

theorem stays_processors (operation : Operation) :
    Stays (some args.fresh) (fun _ ↦ True) (processors operation args) := by
  cases operation with
  | imageResize =>
    exact stays_image args IsImageWork.resize fun _ _ _ hstored ↦
      confined_bind (stays_readBack args hstored) fun _ _ ↦ stays_done _
  | imageConvert => exact stays_image args IsImageWork.convert fun _ _ _ _ ↦ stays_done _
  | imageThumbnail => exact stays_image args IsImageWork.thumbnail fun _ _ _ _ ↦ stays_done _
  | csvValidate => exact stays_validateCsv args
  | csvTransform => exact stays_transformCsv args

end Processors

theorem stays_runJobWithRetryPolicy (runtime : Runtime) (data : Json) :
    Stays (some runtime.fresh) (fun _ ↦ True) (runJobWithRetryPolicy runtime data) := by
  refine stays_rethrowing _ ?_
  rw [runJob]
  cases JobPayloadSchema.safeParse data with
  | none => exact .error _
  | some payload => exact stays_processors { runtime with payload := payload } _

/-- An attempt makes no call after one that has failed. -/
theorem relays_runJobWithRetryPolicy (runtime : Runtime) (data : Json) :
    Relays (fun _ _ ↦ True) (runJobWithRetryPolicy runtime data) := by
  have hjob : Relays (fun _ _ ↦ True) (runJob runtime data) := by
    rw [runJob]
    cases JobPayloadSchema.safeParse data with
    | none => exact relays_throw _
    | some payload => exact (relays_processors _ _).mono fun _ _ _ ↦ trivial
  exact relays_handle hjob fun _ _ _ ↦ trivial

/-! ### Runs -/

/-- One attempt: the data of its job and the identifier that it draws. -/
structure Asked where
  data : Json
  fresh : OutputKeys.IdStart

def Asked.owner (asked : Asked) : Option OutputKeys.IdStart := some asked.fresh

/-- The deployment as the attempt finds it. -/
def Asked.inside (env : Env) (asked : Asked) : Env := { env with fresh := asked.fresh }

def start (env : Env) (asked : Asked) : JobTask ProcessorResult :=
  runJobWithRetryPolicy (asked.inside env).toRuntime asked.data

/-- The answers do not depend on who asks. -/
theorem answer_inside (env : Env) (asked : Asked) : (asked.inside env).answer = env.answer := by
  funext request held
  cases request with
  | chain chain => cases chain <;> rfl
  | _ => rfl

/-- The attempt by itself. -/
theorem attempt_inside (env : Env) (asked : Asked) (files : AbsolutePath → Option Bytes) :
    attempt (asked.inside env) asked.data files =
      (Program.run (steady env.answer) (start env asked) 0 { files := files }).outcome := by
  rw [attempt, Env.world, answer_inside]
  rfl

/-- The product of an attempt by itself is stored at a path of its own. -/
theorem product_of_ok {env : Env} {asked : Asked} {files : AbsolutePath → Option Bytes}
    {result : ProcessorResult}
    (huploaded : ∀ fileId record, recordOf env fileId = .ok (some record) → Uploaded record)
    (h : attempt (asked.inside env) asked.data files = .ok result) :
    ∃ payload product path, JobPayloadSchema.safeParse asked.data = some payload ∧
      productOf (asked.inside env) files payload = some product ∧ result = product.result ∧
      Storage.LocalStorage.pathFor env.root product.key = .ok path ∧ Produced asked.fresh path ∧
      (Program.run (steady env.answer) (start env asked) 0 { files := files }).state.files path =
        some product.bytes := by
  obtain ⟨payload, product, hpayload, hproduct, path, hpath, hresult, hafter⟩ :=
    completes_runJobWithRetryPolicy.mp (ends_iff_completes.mp ⟨h, rfl⟩)
  have hproduced : Produced asked.fresh path := by
    obtain ⟨record, hrecord, ⟨work, metadata, hwork, hkey⟩ | ⟨-, kind, hkey⟩⟩ :=
      key_of_productOf hproduct
    · rw [hkey] at hpath
      exact produced_of_image (huploaded _ record hrecord) hwork metadata hpath
    · rw [hkey] at hpath
      exact produced_of_csv kind hpath
  refine ⟨payload, product, path, hpayload, hproduct, hresult.symm, pathFor_of_resolved hpath,
    hproduced, ?_⟩
  rw [Env.world, answer_inside] at hafter
  exact (congrFun hafter path).symm.trans (Function.update_self ..)

/-- In every run of attempts beside each other. An attempt that has ended has ended as it would have
alone, or with an error after one of its own calls was to fail. The product of each that has a
result is stored, as it was computed from the files before the run. No file has changed but products
of the attempts. Assumes: records of uploads, and different identifiers. -/
theorem attempts_do_not_meet (env : Env) (fates : ℕ → Fate) (files : AbsolutePath → Option Bytes)
    (huploaded : ∀ fileId record, recordOf env fileId = .ok (some record) → Uploaded record)
    {actions : List (Action Asked)} {after : Pool Call Reply Fault ProcessorResult Held}
    (hrun : (pool (beside env fates) (start env) { files := files }).run actions = some after)
    (hdistinct : ((actions.filterMap started).map Asked.fresh).Nodup) :
    (∀ (index : ℕ) outcome, after.running[index]? = some (.finish outcome) →
      ∃ caller, (callers actions)[index]? = some caller ∧
        (outcome = attempt (caller.request.inside env) caller.request.data files ∨
          (∃ fault, outcome = .error fault) ∧ ∃ number ∈ caller.calls, fates number ≠ .works)) ∧
    (∀ (index : ℕ) result, after.running[index]? = some (.finish (.ok result)) →
      ∃ caller, (callers actions)[index]? = some caller ∧
      ∃ payload product path, JobPayloadSchema.safeParse caller.request.data = some payload ∧
        productOf (caller.request.inside env) files payload = some product ∧
        result = product.result ∧
        Storage.LocalStorage.pathFor env.root product.key = .ok path ∧
        after.state.files path = some product.bytes) ∧
    ∀ path, after.state.files path ≠ files path →
      ∃ asked ∈ actions.filterMap started, Produced asked.fresh path := by
  have howners : ((actions.filterMap started).map Asked.owner).Nodup := by
    have hmapped := hdistinct.map (Option.some_injective OutputKeys.IdStart)
    rw [List.map_map] at hmapped
    exact hmapped
  have hstays (asked : Asked) : Stays asked.owner (fun _ ↦ True) (start env asked) :=
    stays_runJobWithRetryPolicy (asked.inside env).toRuntime asked.data
  have hrelays (asked : Asked) : Relays (fun _ _ ↦ True) (start env asked) :=
    relays_runJobWithRetryPolicy (asked.inside env).toRuntime asked.data
  obtain ⟨hends, hidle⟩ := pool_alone (apart_beside env fates huploaded) hstays hrelays hrun howners
  refine ⟨fun index outcome houtcome ↦ ?_, fun index result hresult ↦ ?_, fun path hpath ↦ ?_⟩
  · obtain ⟨caller, hcaller, ⟨halone, -⟩ | ⟨hfault, number, hnumber, request, held, hstruck⟩⟩ :=
      hends index outcome houtcome
    · exact ⟨caller, hcaller, Or.inl (halone.trans (attempt_inside env _ files).symm)⟩
    · refine ⟨caller, hcaller, Or.inr ⟨hfault, number, hnumber, fun hworks ↦ hstruck ?_⟩⟩
      rw [beside, hworks]
  · obtain ⟨caller, hcaller, ⟨halone, hsame⟩ | ⟨⟨fault, hfault⟩, -⟩⟩ := hends index _ hresult
    · obtain ⟨payload, product, path, hpayload, hproduct, hreported, hpath, hproduced, hstored⟩ :=
        product_of_ok huploaded ((attempt_inside env caller.request files).trans halone.symm)
      refine ⟨caller, hcaller, payload, product, path, hpayload, hproduct, hreported, hpath, ?_⟩
      rw [← hstored]
      exact (hsame path (sees_of_produced hproduced)).symm
    · cases hfault
  · -- nobody but its owner writes a product, and what is no product nobody writes
    by_contra hnone
    by_cases hproduced : ∃ fresh, Produced fresh path
    · obtain ⟨fresh, hfresh⟩ := hproduced
      have howner : some fresh ∉ (actions.filterMap started).map Asked.owner := by
        intro hmem
        obtain ⟨asked, hasked, heq⟩ := List.mem_map.mp hmem
        exact hnone ⟨asked, hasked, Option.some.inj heq ▸ hfresh⟩
      exact hpath (hidle _ howner path (sees_of_produced hfresh)).symm
    · have howner : none ∉ (actions.filterMap started).map Asked.owner := by
        simp [Asked.owner]
      exact hpath (hidle _ howner path fun fresh hfresh ↦ absurd ⟨fresh, hfresh⟩ hproduced).symm

/-- What a program has ended with. -/
def resultOf : JobTask ProcessorResult → Option ProcessorResult
  | .finish (.ok result) => some result
  | _ => none

theorem eq_of_resultOf {program : JobTask ProcessorResult} {result : ProcessorResult}
    (h : resultOf program = some result) : program = .finish (.ok result) := by
  unfold resultOf at h
  split at h
  · rw [Option.some.inj h]
  · cases h

def oneUpload : Env := gallery (some picture.toJson) (.ok [4])

/-- The record of the upload is the only one. -/
theorem uploaded_of_oneUpload (fileId : String) (record : FileRecord)
    (h : recordOf oneUpload fileId = .ok (some record)) : Uploaded record := by
  have hpicture : record = picture := by
    by_cases hkey : keyFor fileId = "file:a"
    · have hget : recordOf oneUpload fileId = .ok (some picture) := by
        have hdb : oneUpload.db (keyFor fileId) = some ⟨some picture.toJson, none⟩ := if_pos hkey
        have hread : FileRecordSchema.safeParse picture.toJson = some picture := by decide +kernel
        rw [recordOf, Files.Repository.get, ExpiringStore.get, ExpiringStore.live, hdb]
        exact congrArg Except.ok hread
      rw [hget] at h
      exact (Option.some.inj (Except.ok.inj h)).symm
    · have hget : recordOf oneUpload fileId = .ok none := by
        have hdb : oneUpload.db (keyFor fileId) = none := if_neg hkey
        simp [recordOf, Files.Repository.get, ExpiringStore.get, ExpiringStore.live, hdb]
      rw [hget] at h
      cases h
  rw [hpicture]
  exact ⟨⟨"a", forall_mem_of_all (by decide), by decide⟩, fun _ _ ↦ false, "", "", "a.png",
    by decide +kernel, by decide +kernel⟩

def firstId : OutputKeys.IdStart := ⟨"5a5b5c5d", forall_mem_of_all (by decide), by decide⟩

def secondId : OutputKeys.IdStart := ⟨"00112233", forall_mem_of_all (by decide), by decide⟩

/-- Two attempts on one job; the second loses Redis on its way. -/
def twoThumbnails : List (Action Asked) := [
  .start ⟨thumbnailJob, firstId⟩,
  .start ⟨thumbnailJob, secondId⟩,
  .advance 0, .advance 1, .advance 0, .advance 1, .advance 0, .advance 1, .advance 0, .advance 1,
  .advance 0, .advance 0, .advance 0, .advance 0, .advance 0, .advance 0, .advance 0, .advance 0]

def seventhFails (calls : ℕ) : Fate :=
  if calls = 7 then .fails (.thrown (.error "connect ECONNREFUSED")) none else .works

theorem attempts_do_not_meet_twoThumbnails :
    ∃ after result caller, (pool (beside oneUpload seventhFails) (start oneUpload)
        { files := galleryFiles }).run twoThumbnails = some after ∧
      after.running[0]? = some (.finish (.ok result)) ∧
      (callers twoThumbnails)[0]? = some caller ∧ caller.request.fresh = firstId ∧
      ∃ payload product path,
        JobPayloadSchema.safeParse caller.request.data = some payload ∧
        productOf (caller.request.inside oneUpload) galleryFiles payload = some product ∧
        result = product.result ∧
        Storage.LocalStorage.pathFor oneUpload.root product.key = .ok path ∧
        after.state.files path = some product.bytes := by
  have hrun : (((pool (beside oneUpload seventhFails) (start oneUpload)
      { files := galleryFiles }).run twoThumbnails).bind fun after ↦
        after.running[0]?.bind resultOf).isSome = true := by
    decide +kernel
  obtain ⟨result, hfirst⟩ := Option.isSome_iff_exists.mp hrun
  obtain ⟨after, hafter, hhead⟩ := Option.bind_eq_some_iff.mp hfirst
  obtain ⟨program, hprogram, hended⟩ := Option.bind_eq_some_iff.mp hhead
  have hresult : after.running[0]? = some (.finish (.ok result)) := by
    rw [← eq_of_resultOf hended]
    exact hprogram
  have hdistinct : ((twoThumbnails.filterMap started).map Asked.fresh).Nodup := by
    apply List.Nodup.of_map OutputKeys.IdStart.text
    decide +kernel
  obtain ⟨caller, hcaller, hstored⟩ := (attempts_do_not_meet oneUpload seventhFails galleryFiles
    uploaded_of_oneUpload hafter hdistinct).2.1 0 result hresult
  have howner : ((callers twoThumbnails)[0]?).map (fun caller ↦ caller.request.fresh) =
      some firstId := rfl
  rw [hcaller, Option.map_some, Option.some.injEq] at howner
  exact ⟨after, result, caller, hafter, hresult, hcaller, howner, hstored⟩

end FileForge.Jobs.Concurrency
