import Mathlib.Data.List.Basic
import Mathlib.Tactic.Common

/-!
# POSIX paths

The text of a path and its segments. Normalising drops empty and `.` segments and lets a `..` pop
the segment before it, stopping at `/` (`normalizeSegments`). An `AbsolutePath` is a normalised
absolute path: its segments are proper names, so that no value of the type still contains a `..`.

`resolve` and `join` follow `node:path` for absolute paths. `resolve_join_segments` is their
composition on the segments, and `segments_prefix_of_text` turns the usual textual containment test
into containment of segment lists: a text that starts with the text of a directory followed by a
separator names a path below that directory. The step from texts to segments is
`splitSlash_text`, that splitting the text of a path gives its segments back.
-/

set_option autoImplicit false
set_option relaxedAutoImplicit false

namespace FileForge.Foundation.PosixPath

/-! ### Segments -/

/-- A text that is a segment of a normalised path. -/
def IsName (segment : String) : Prop :=
  segment ≠ "" ∧ segment ≠ "." ∧ segment ≠ ".." ∧ '/' ∉ segment.toList

instance : DecidablePred IsName := fun segment ↦
  inferInstanceAs (Decidable (segment ≠ "" ∧ segment ≠ "." ∧ segment ≠ ".." ∧
    '/' ∉ segment.toList))

/-- A text without `/` is a name when it has another character than the dot. -/
theorem isName_of_mem {segment : String} {c : Char} (hmem : c ∈ segment.toList) (hdot : c ≠ '.')
    (hslash : '/' ∉ segment.toList) : IsName segment := by
  refine ⟨?_, ?_, ?_, hslash⟩
  · rintro rfl
    exact absurd hmem List.not_mem_nil
  · rintro rfl
    exact hdot (List.mem_singleton.mp hmem)
  · rintro rfl
    exact hdot (by simpa using hmem)

/-- The segments of a text, empty ones included. -/
def splitSlash (text : String) : List String := (text.toList.splitOn '/').map String.ofList

/-- One segment onto a normalised path. -/
def pushSegment (path : List String) (segment : String) : List String :=
  if segment = "" ∨ segment = "." then path
  else if segment = ".." then path.dropLast
  else path ++ [segment]

/-- The segments of a normalised absolute path, from left to right. -/
def normalizeSegments (segments : List String) : List String := segments.foldl pushSegment []

theorem slash_not_mem_of_mem_splitOn {text word : List Char} (h : word ∈ text.splitOn '/') :
    '/' ∉ word := by
  induction text generalizing word with
  | nil =>
    rw [List.splitOn_nil, List.mem_singleton] at h
    rw [h]
    exact List.not_mem_nil
  | cons char rest ih =>
    rw [List.splitOn_cons_eq_if_modifyHead] at h
    by_cases hchar : char = '/'
    · rw [if_pos (beq_iff_eq.mpr hchar)] at h
      rcases List.mem_cons.mp h with rfl | hrest
      · exact List.not_mem_nil
      · exact ih hrest
    · rw [if_neg (by simpa using hchar)] at h
      obtain ⟨first, others, hsplit⟩ := List.exists_cons_of_ne_nil (List.splitOn_ne_nil '/' rest)
      rw [hsplit, List.modifyHead_cons] at h
      rcases List.mem_cons.mp h with rfl | hothers
      · have hfirst : '/' ∉ first := ih (by rw [hsplit]; exact List.mem_cons_self)
        simp [hfirst, Ne.symm hchar]
      · exact ih (by rw [hsplit]; exact List.mem_cons_of_mem first hothers)

theorem slash_not_mem_of_mem_splitSlash {text segment : String} (h : segment ∈ splitSlash text) :
    '/' ∉ segment.toList := by
  obtain ⟨word, hword, rfl⟩ := List.mem_map.mp h
  rw [String.toList_ofList]
  exact slash_not_mem_of_mem_splitOn hword

/-- Pushing a segment of a text keeps the segments names. -/
theorem pushSegment_names {path : List String} {segment : String}
    (hpath : ∀ name ∈ path, IsName name) (hsegment : '/' ∉ segment.toList) :
    ∀ name ∈ pushSegment path segment, IsName name := by
  unfold pushSegment
  split_ifs with hskip hup
  · exact hpath
  · exact fun name hname ↦ hpath name ((List.dropLast_sublist path).mem hname)
  · intro name hname
    rcases List.mem_append.mp hname with hold | hnew
    · exact hpath name hold
    · rw [List.mem_singleton.mp hnew]
      push Not at hskip
      exact ⟨hskip.1, hskip.2, hup, hsegment⟩

theorem foldl_pushSegment_names {segments : List String}
    (hsegments : ∀ segment ∈ segments, '/' ∉ segment.toList) :
    ∀ {path : List String}, (∀ name ∈ path, IsName name) →
      ∀ name ∈ segments.foldl pushSegment path, IsName name := by
  induction segments with
  | nil => exact fun hpath ↦ hpath
  | cons segment rest ih =>
    intro path hpath
    exact ih (fun other hother ↦ hsegments other (List.mem_cons_of_mem segment hother))
      (pushSegment_names hpath (hsegments segment List.mem_cons_self))

/-- Names are pushed as they are. -/
theorem foldl_pushSegment_of_names {segments : List String} :
    ∀ {path : List String}, (∀ name ∈ segments, IsName name) →
      segments.foldl pushSegment path = path ++ segments := by
  induction segments with
  | nil => exact fun _ ↦ (List.append_nil _).symm
  | cons segment rest ih =>
    intro path hnames
    obtain ⟨hempty, hdot, hup, -⟩ := hnames segment List.mem_cons_self
    have hpush : pushSegment path segment = path ++ [segment] := by
      unfold pushSegment
      rw [if_neg (not_or.mpr ⟨hempty, hdot⟩), if_neg hup]
    have hrest : ∀ name ∈ rest, IsName name := fun name hname ↦
      hnames name (List.mem_cons_of_mem segment hname)
    rw [List.foldl_cons, hpush, ih hrest, List.append_assoc, List.singleton_append]

@[simp] theorem pushSegment_empty (path : List String) : pushSegment path "" = path :=
  if_pos (Or.inl rfl)

/-- A text without a separator is one segment. -/
theorem splitSlash_of_slash_not_mem {text : String} (h : '/' ∉ text.toList) :
    splitSlash text = [text] := by
  rw [splitSlash, List.splitOn_eq_singleton h, List.map_singleton, String.ofList_toList]

/-! ### Absolute paths -/

/-- A normalised absolute path. -/
structure AbsolutePath where
  segments : List String
  names : ∀ name ∈ segments, IsName name
  deriving DecidableEq

namespace AbsolutePath

@[ext] theorem ext {first second : AbsolutePath} (h : first.segments = second.segments) :
    first = second := by
  cases first
  cases second
  cases h
  rfl

/-- The characters of the segments, each after a separator. -/
def segmentChars (segments : List String) : List Char :=
  segments.flatMap fun segment ↦ '/' :: segment.toList

/-- The text of a path. -/
def text (path : AbsolutePath) : String :=
  if path.segments = [] then "/" else String.ofList (segmentChars path.segments)

/-- The directory a path lies in, and `/` for `/` itself: `dirname`. -/
def dirname (path : AbsolutePath) : AbsolutePath :=
  ⟨path.segments.dropLast, fun name hname ↦
    path.names name ((List.dropLast_sublist path.segments).mem hname)⟩

/-- The path lies in a directory or is that directory. -/
def Inside (root path : AbsolutePath) : Prop := root.segments <+: path.segments

instance (root path : AbsolutePath) : Decidable (Inside root path) :=
  inferInstanceAs (Decidable (root.segments <+: path.segments))

theorem Inside.refl (path : AbsolutePath) : Inside path path := List.prefix_rfl

end AbsolutePath

open AbsolutePath

/-- Splitting a name followed by segments. -/
theorem splitOn_append_segmentChars {segments : List String}
    (hnames : ∀ name ∈ segments, '/' ∉ name.toList) :
    ∀ {word : List Char}, '/' ∉ word →
      (word ++ segmentChars segments).splitOn '/' = word :: segments.map String.toList := by
  induction segments with
  | nil =>
    intro word hword
    rw [segmentChars, List.flatMap_nil, List.append_nil, List.splitOn_eq_singleton hword]
    rfl
  | cons segment rest ih =>
    intro word hword
    have hrest := ih (fun name hname ↦ hnames name (List.mem_cons_of_mem segment hname))
      (hnames segment List.mem_cons_self)
    rw [segmentChars, List.flatMap_cons, List.cons_append,
      List.splitOn_append_cons_self_of_not_mem hword, ← segmentChars, hrest]
    rfl

/-- Splitting the text of a path gives its segments, after the empty text before the first
separator. Assumes: a path other than `/`. -/
theorem splitSlash_text {path : AbsolutePath} (h : path.segments ≠ []) :
    splitSlash path.text = "" :: path.segments := by
  have hnames : ∀ name ∈ path.segments, '/' ∉ name.toList := fun name hname ↦
    (path.names name hname).2.2.2
  have hsplit := splitOn_append_segmentChars hnames (List.not_mem_nil (a := '/'))
  rw [List.nil_append] at hsplit
  rw [text, if_neg h, splitSlash, String.toList_ofList, hsplit, List.map_cons, List.map_map]
  simp [Function.comp_def]

/-- Splitting at a separator between two texts. -/
theorem splitSlash_append (first second : String) :
    splitSlash (first ++ "/" ++ second) = splitSlash first ++ splitSlash second := by
  have hslash : "/".toList = ['/'] := rfl
  rw [splitSlash, String.toList_append, String.toList_append, hslash, List.append_assoc,
    List.singleton_append, List.splitOn_append_cons_self, List.map_append]
  rfl

/-! ### `resolve` and `join` -/

/-- `resolve` of an absolute path. -/
def resolve (text : String) : AbsolutePath :=
  ⟨normalizeSegments (splitSlash text),
    foldl_pushSegment_names (fun _ hsegment ↦ slash_not_mem_of_mem_splitSlash hsegment) (by simp)⟩

/-- `normalize` of an absolute path: a separator at the end stays. -/
def normalize (text : String) : String :=
  let full := resolve text
  if text.toList.getLast? = some '/' ∧ full.segments ≠ [] then full.text ++ "/" else full.text

/-- `join` onto an absolute path. -/
def join (first second : String) : String :=
  normalize (if second = "" then first else first ++ "/" ++ second)

/-- Resolving the text of a path gives the path back. -/
@[simp] theorem resolve_text (path : AbsolutePath) : resolve path.text = path := by
  ext1
  by_cases h : path.segments = []
  · rw [text, if_pos h, h]
    rfl
  · show (splitSlash path.text).foldl pushSegment [] = path.segments
    rw [splitSlash_text h, List.foldl_cons, pushSegment_empty,
      foldl_pushSegment_of_names path.names, List.nil_append]

/-- Two paths with one text are equal. -/
theorem text_injective : Function.Injective text := fun first second h ↦ by
  rw [← resolve_text first, h, resolve_text]

/-- The segments of a text pushed onto a path. -/
theorem resolve_append (path : AbsolutePath) (key : String) :
    (resolve (path.text ++ "/" ++ key)).segments = (splitSlash key).foldl pushSegment
      path.segments := by
  have hpath : (splitSlash path.text).foldl pushSegment [] = path.segments :=
    congrArg segments (resolve_text path)
  show (splitSlash (path.text ++ "/" ++ key)).foldl pushSegment [] = _
  rw [splitSlash_append, List.foldl_append, hpath]

@[simp] theorem resolve_normalize (text : String) : resolve (normalize text) = resolve text := by
  simp only [normalize]
  split_ifs
  · ext1
    have happend := resolve_append (resolve text) ""
    rw [String.append_empty] at happend
    rw [happend]
    rfl
  · exact resolve_text _

/-- `resolve` after `join` pushes the segments of the second text onto the first path. -/
theorem resolve_join_segments (path : AbsolutePath) (key : String) :
    (resolve (join path.text key)).segments =
      (splitSlash key).foldl pushSegment path.segments := by
  rw [join, resolve_normalize]
  split_ifs with hkey
  · rw [resolve_text, hkey]
    rfl
  · exact resolve_append path key

/-- Two names, joined onto a path, name an entry of a directory in it. -/
theorem resolve_join_names (path : AbsolutePath) {directory name : String}
    (hdirectory : IsName directory) (hname : IsName name) :
    (resolve (join path.text (directory ++ "/" ++ name))).segments =
      path.segments ++ [directory, name] := by
  rw [resolve_join_segments, splitSlash_append, splitSlash_of_slash_not_mem hdirectory.2.2.2,
    splitSlash_of_slash_not_mem hname.2.2.2]
  refine foldl_pushSegment_of_names fun segment hsegment ↦ ?_
  rcases List.mem_pair.mp hsegment with rfl | rfl
  · exact hdirectory
  · exact hname

/-- The textual containment test recognises what lies below a directory other than `/`. -/
theorem text_prefix_of_segments {root path : AbsolutePath} (hroot : root.segments ≠ [])
    {first : String} {rest : List String} (h : path.segments = root.segments ++ first :: rest) :
    (root.text ++ "/").toList <+: path.text.toList := by
  have hpath : path.segments ≠ [] := by
    rw [h]
    exact List.append_ne_nil_of_left_ne_nil hroot _
  refine ⟨first.toList ++ segmentChars rest, ?_⟩
  rw [text, text, if_neg hroot, if_neg hpath, h, String.toList_append, String.toList_ofList,
    String.toList_ofList, segmentChars, segmentChars, segmentChars, List.flatMap_append,
    List.flatMap_cons]
  simp

/-- The textual containment test is sound: a path whose text starts with the text of a directory
and a separator lies inside that directory. -/
theorem segments_prefix_of_text {root path : AbsolutePath}
    (h : (root.text ++ "/").toList <+: path.text.toList) : Inside root path := by
  unfold Inside
  by_cases hroot : root.segments = []
  · rw [hroot]
    exact List.nil_prefix
  · obtain ⟨rest, hrest⟩ := h
    have htext : path.text = root.text ++ "/" ++ String.ofList rest := by
      apply String.toList_injective
      rw [String.toList_append, String.toList_ofList, hrest]
    have hsplit := splitSlash_append root.text (String.ofList rest)
    rw [← htext, splitSlash_text hroot] at hsplit
    by_cases hpath : path.segments = []
    · -- the text `/` is too short to contain the root's text and a separator
      have hslash : path.text = "/" := if_pos hpath
      rw [hslash] at hrest
      have hlength := congrArg List.length hrest
      have hone : ("/" : String).toList.length = 1 := rfl
      rw [List.length_append, String.toList_append, List.length_append, hone] at hlength
      have hzero : root.text.toList.length = 0 := by omega
      rw [text, if_neg hroot, String.toList_ofList] at hzero
      obtain ⟨segment, others, hsegments⟩ := List.exists_cons_of_ne_nil hroot
      rw [hsegments] at hzero
      simp [segmentChars] at hzero
    · rw [splitSlash_text hpath, List.cons_append] at hsplit
      exact ⟨splitSlash (String.ofList rest), (List.tail_eq_of_cons_eq hsplit).symm⟩

/-! ### Names at the end of a path -/

/-- `basename`: the last segment of a text, trailing separators left out. -/
def basename (text : String) : String :=
  ((splitSlash text).filter (· ≠ "")).getLastD ""

end FileForge.Foundation.PosixPath
