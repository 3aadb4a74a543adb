import FileForge.Foundation.FileTree

/-!
# What the calls of a write leave behind

The content of a path is what a reader can find there: nothing, a directory, or the bytes of a file
(`content`). For each call of a write there is the condition under which it does its work (`Makes`
for `mkdir`, `Moves` for `rename`, `Opens` and `Finishes` for a stream into a file), and what it
answers and leaves when the condition holds and when it does not. `mkdir` leaves directories even
when it fails (`prepared`), and never touches a file. A stream that has opened its target leaves a
file even when it fails (`writeTo_of_opens`): the bytes that have got through (`leaves`).
-/

set_option autoImplicit false
set_option relaxedAutoImplicit false

namespace FileForge.Foundation.FileWrites

open PosixPath FileTree

/-! ### Contents -/

/-- The bytes of a file, and none for a directory. -/
def held : Node → Option Bytes
  | .file bytes _ => some bytes
  | .directory => none

/-- What a path holds: nothing, a directory, or the bytes of a file. -/
def content (tree : Tree) (path : AbsolutePath) : Option (Option Bytes) :=
  (tree.lookup path).map held

theorem content_of_lookup_eq {tree other : Tree} {path : AbsolutePath}
    (h : tree.lookup path = other.lookup path) : content tree path = content other path := by
  rw [content, content, h]

theorem content_insert_self (tree : Tree) (path : AbsolutePath) (node : Node) :
    content (tree.insert path node) path = some (held node) := by
  rw [content, AList.lookup_insert]
  rfl

theorem content_insert_of_ne (tree : Tree) {path other : AbsolutePath} (node : Node)
    (h : other ≠ path) : content (tree.insert path node) other = content tree other :=
  content_of_lookup_eq (AList.lookup_insert_ne h)

theorem content_erase_self (tree : Tree) (path : AbsolutePath) :
    content (tree.erase path) path = none := by
  rw [content, AList.lookup_erase]
  rfl

theorem content_erase_of_ne (tree : Tree) {path other : AbsolutePath} (h : other ≠ path) :
    content (tree.erase path) other = content tree other :=
  content_of_lookup_eq (AList.lookup_erase_ne h)

/-- A path that holds bytes is a file with these bytes. -/
theorem content_eq_file_iff {tree : Tree} {path : AbsolutePath} {bytes : Bytes} :
    content tree path = some (some bytes) ↔
      ∃ mtimeMs, tree.lookup path = some (.file bytes mtimeMs) := by
  constructor
  · intro h
    obtain ⟨node, hnode, hbytes⟩ := Option.map_eq_some_iff.mp h
    cases node with
    | file held mtimeMs =>
      obtain rfl := Option.some.inj hbytes
      exact ⟨mtimeMs, hnode⟩
    | directory => cases hbytes
  · rintro ⟨mtimeMs, hnode⟩
    rw [content, hnode]
    rfl

/-! ### `mkdir` -/

/-- The tree that `mkdir` leaves. -/
def prepared (fate : Fate) (tree : Tree) (directory : AbsolutePath) : Tree :=
  putDirectories (made fate tree directory) tree

/-- `mkdir` works: it is not made to fail, and no regular file stands in its way. -/
def Makes (fate : Fate) (tree : Tree) (directory : AbsolutePath) : Prop :=
  fate = .completes ∧ ¬ blocked tree directory = true

instance (fate : Fate) (tree : Tree) (directory : AbsolutePath) :
    Decidable (Makes fate tree directory) :=
  inferInstanceAs (Decidable (_ ∧ _))

/-- A regular file blocks every path below it. -/
theorem blocked_of_mem {tree : Tree} {directory path : AbsolutePath}
    (hpath : path ∈ selfAndAncestors directory) {bytes : Bytes} {mtimeMs : ℚ}
    (hfile : tree.lookup path = some (.file bytes mtimeMs)) : blocked tree directory = true := by
  refine List.any_eq_true.mpr ⟨path, hpath, ?_⟩
  rw [hfile]
  rfl

theorem answer_mkdir_of_makes {fate : Fate} {tree : Tree} {directory : AbsolutePath}
    (h : Makes fate tree directory) (now : ℚ) :
    answer fate now (.mkdir directory) tree = (.ok (), prepared fate tree directory) := by
  obtain ⟨rfl, hclear⟩ := h
  show (mkdirReply .completes tree directory, _) = _
  rw [mkdirReply, if_pos hclear]
  rfl

theorem answer_mkdir_of_not_makes {fate : Fate} {tree : Tree} {directory : AbsolutePath}
    (h : ¬ Makes fate tree directory) (now : ℚ) :
    ∃ fault, answer fate now (.mkdir directory) tree =
      (.error fault, prepared fate tree directory) := by
  have hreply : ∃ fault, mkdirReply fate tree directory = .error fault := by
    cases fate with
    | fails code depth => exact ⟨_, rfl⟩
    | completes =>
      rw [mkdirReply]
      split_ifs with hblocked hfile
      · exact ⟨_, rfl⟩
      · exact ⟨_, rfl⟩
      · exact absurd ⟨rfl, hblocked⟩ h
  obtain ⟨fault, hfault⟩ := hreply
  refine ⟨fault, ?_⟩
  show (mkdirReply fate tree directory, _) = _
  rw [hfault]
  rfl

/-- Directories are put at some paths and the other paths keep their nodes. -/
theorem lookup_putDirectories (paths : List AbsolutePath) (tree : Tree) (path : AbsolutePath) :
    (putDirectories paths tree).lookup path =
      if path ∈ paths then some .directory else tree.lookup path := by
  rw [putDirectories]
  induction paths generalizing tree with
  | nil => rfl
  | cons first rest ih =>
    rw [List.foldl_cons, ih]
    by_cases hrest : path ∈ rest
    · rw [if_pos hrest, if_pos (List.mem_cons_of_mem first hrest)]
    · rw [if_neg hrest]
      by_cases hfirst : path = first
      · subst hfirst
        rw [AList.lookup_insert, if_pos List.mem_cons_self]
      · rw [AList.lookup_insert_ne hfirst, if_neg (by simp [hfirst, hrest])]

theorem lookup_prepared (fate : Fate) (tree : Tree) (directory path : AbsolutePath) :
    (prepared fate tree directory).lookup path =
      if path ∈ made fate tree directory then some .directory else tree.lookup path :=
  lookup_putDirectories _ _ _

/-- A call changes nothing but the paths that it names, and `mkdir` nothing but what it puts. -/
theorem lookup_answer {fate : Fate} {now : ℚ} {call : Call} {tree : Tree} {path : AbsolutePath}
    (hnamed : path ∈ call.paths → ∃ directory, call = .mkdir directory)
    (hput : ∀ directory, call = .mkdir directory → path ∉ made fate tree directory) :
    (answer fate now call tree).2.lookup path = tree.lookup path := by
  have hwrite : ∀ delivery target, path ≠ target →
      (writeTo target delivery fate now tree).2.lookup path = tree.lookup path := by
    intro delivery target hne
    unfold writeTo
    split <;> first | rfl | exact AList.lookup_insert_ne hne | skip
    split <;> exact AList.lookup_insert_ne hne
  have hother : ∀ named, (∀ directory, call ≠ .mkdir directory) → named ∈ call.paths →
      path ≠ named := by
    rintro named hne hmem rfl
    obtain ⟨directory, hmkdir⟩ := hnamed hmem
    exact hne directory hmkdir
  cases call with
  | mkdir directory =>
    show (prepared fate tree directory).lookup path = _
    rw [lookup_prepared, if_neg (hput directory rfl)]
  | stat named | readdir named | openRead named =>
    simp only [answer]
    split <;> rfl
  | rename source target =>
    have hsource := hother source (fun _ ↦ nofun) List.mem_cons_self
    have htarget := hother target (fun _ ↦ nofun) (List.mem_cons_of_mem _ List.mem_cons_self)
    simp only [answer]
    split <;> first | rfl | skip
    rw [AList.lookup_insert_ne htarget, AList.lookup_erase_ne hsource]
  | remove named =>
    have hne := hother named (fun _ ↦ nofun) List.mem_cons_self
    simp only [answer]
    split <;> first | rfl | exact AList.lookup_erase_ne hne
  | writeStream delivery target =>
    exact hwrite delivery target (hother target (fun _ ↦ nofun) List.mem_cons_self)
  | copyStream source target =>
    have htarget := hother target (fun _ ↦ nofun) (List.mem_cons_of_mem _ List.mem_cons_self)
    simp only [answer]
    split <;> exact hwrite _ target htarget

/-- What `mkdir` puts, lies on the way, on which there is no regular file. -/
theorem made_cases {fate : Fate} {tree : Tree} {directory path : AbsolutePath}
    (h : path ∈ made fate tree directory) :
    path ∈ selfAndAncestors directory ∧ ¬ blocked tree directory = true := by
  unfold made at h
  split_ifs at h with hblocked
  · cases h
  · refine ⟨?_, hblocked⟩
    cases fate with
    | completes => exact h
    | fails code depth => exact List.mem_of_mem_take h

theorem made_of_makes {fate : Fate} {tree : Tree} {directory : AbsolutePath}
    (h : Makes fate tree directory) : made fate tree directory = selfAndAncestors directory := by
  obtain ⟨rfl, hclear⟩ := h
  exact if_neg hclear

/-- A directory that `mkdir` puts is there already or holds nothing. -/
theorem content_of_made {fate : Fate} {tree : Tree} {directory path : AbsolutePath}
    (hpath : path ∈ made fate tree directory) :
    content tree path = some none ∨ tree.lookup path = none := by
  obtain ⟨habove, hclear⟩ := made_cases hpath
  cases hnode : tree.lookup path with
  | none => exact Or.inr rfl
  | some node =>
    cases node with
    | directory =>
      left
      rw [content, hnode]
      rfl
    | file bytes mtimeMs => exact absurd (blocked_of_mem habove hnode) hclear

/-- A file keeps its bytes when directories are made. -/
theorem content_prepared_of_file {fate : Fate} {tree : Tree} {directory path : AbsolutePath}
    {bytes : Bytes} :
    content (prepared fate tree directory) path = some (some bytes) ↔
      content tree path = some (some bytes) := by
  rw [content, lookup_prepared]
  by_cases hpath : path ∈ made fate tree directory
  · rw [if_pos hpath]
    constructor
    · intro hheld
      cases Option.some.inj hheld
    · intro hheld
      rcases content_of_made hpath with hdirectory | habsent
      · rw [hdirectory] at hheld
        cases Option.some.inj hheld
      · rw [content, habsent] at hheld
        cases hheld
  · rw [if_neg hpath]
    exact Iff.rfl

/-- `mkdir` adds no file and takes none away, also when it fails half-way. -/
theorem join_content_prepared (fate : Fate) (tree : Tree) (directory path : AbsolutePath) :
    (content (prepared fate tree directory) path).join = (content tree path).join := by
  ext1 bytes
  rw [Option.join_eq_some_iff, Option.join_eq_some_iff]
  exact content_prepared_of_file

/-- A path does not lie above itself. -/
theorem not_mem_selfAndAncestors_dirname (path : AbsolutePath) :
    path ∉ selfAndAncestors path.dirname := by
  intro h
  obtain ⟨depth, hdepth, hpath⟩ := List.mem_map.mp h
  have hlength := congrArg (fun path ↦ path.segments.length) hpath
  rw [List.mem_range] at hdepth
  simp only [AbsolutePath.dirname, List.length_take, List.length_dropLast] at hlength hdepth
  omega

theorem lookup_prepared_dirname (fate : Fate) (tree : Tree) (path : AbsolutePath) :
    (prepared fate tree path.dirname).lookup path = tree.lookup path := by
  rw [lookup_prepared, if_neg fun h ↦ not_mem_selfAndAncestors_dirname path (made_cases h).1]

/-- A path that is not a directory holds nothing or a file. -/
theorem lookup_of_ne_directory {tree : Tree} {path : AbsolutePath}
    (h : tree.lookup path ≠ some .directory) :
    tree.lookup path = none ∨ ∃ bytes mtimeMs, tree.lookup path = some (.file bytes mtimeMs) := by
  cases hnode : tree.lookup path with
  | none => exact Or.inl rfl
  | some node =>
    cases node with
    | file bytes mtimeMs => exact Or.inr ⟨bytes, mtimeMs, rfl⟩
    | directory => exact absurd hnode h

/-! ### `rename` -/

/-- `rename` of a file onto a path works. -/
def Moves (fate : Fate) (tree : Tree) (target : AbsolutePath) : Prop :=
  fate = .completes ∧ tree.lookup target ≠ some .directory ∧
    tree.lookup target.dirname = some .directory

instance (fate : Fate) (tree : Tree) (target : AbsolutePath) :
    Decidable (Moves fate tree target) :=
  inferInstanceAs (Decidable (_ ∧ _ ∧ _))

theorem answer_rename_of_moves {fate : Fate} {tree : Tree} {source target : AbsolutePath}
    {node : Node} (h : Moves fate tree target) (hsource : tree.lookup source = some node)
    (now : ℚ) :
    answer fate now (.rename source target) tree =
      (.ok (), (tree.erase source).insert target node) := by
  obtain ⟨rfl, htarget, hdirectory⟩ := h
  rcases lookup_of_ne_directory htarget with hold | ⟨bytes, mtimeMs, hold⟩
  · simp only [answer, hsource, hold, hdirectory]
  · simp only [answer, hsource, hold, hdirectory]

/-- `rename` answers `EXDEV` exactly when it is made to: the tree is one file system. -/
def IsExdev (fate : Fate) : Prop := ∃ written, fate = .fails .exdev written

instance (fate : Fate) : Decidable (IsExdev fate) :=
  match fate with
  | .completes => .isFalse (by rintro ⟨written, h⟩; cases h)
  | .fails code written =>
    if h : code = .exdev then .isTrue ⟨written, by rw [h]⟩
    else .isFalse (by rintro ⟨other, hfate⟩; cases hfate; exact h rfl)

theorem answer_rename_of_exdev {fate : Fate} (h : IsExdev fate) (tree : Tree)
    (source target : AbsolutePath) (now : ℚ) :
    answer fate now (.rename source target) tree = (.error (.system .exdev), tree) := by
  obtain ⟨written, rfl⟩ := h
  rfl

theorem answer_rename_of_not_moves {fate : Fate} {tree : Tree} {source target : AbsolutePath}
    {node : Node} (h : ¬ Moves fate tree target) (hexdev : ¬ IsExdev fate)
    (hsource : tree.lookup source = some node) (now : ℚ) :
    ∃ fault, fault ≠ .system .exdev ∧
      answer fate now (.rename source target) tree = (.error fault, tree) := by
  cases fate with
  | fails code written =>
    refine ⟨.system code, ?_, rfl⟩
    intro hcode
    cases hcode
    exact hexdev ⟨written, rfl⟩
  | completes =>
    by_cases htarget : tree.lookup target = some .directory
    · exact ⟨.system .eisdir, by simp, by simp only [answer, hsource, htarget]⟩
    · have hparent : tree.lookup target.dirname ≠ some .directory :=
        fun hdirectory ↦ h ⟨rfl, htarget, hdirectory⟩
      have habsence : NodeError.system (absence tree target.dirname) ≠ .system .exdev := by
        unfold absence
        split_ifs <;> simp
      rcases lookup_of_ne_directory htarget with hold | ⟨bytes, mtimeMs, hold⟩ <;>
        rcases lookup_of_ne_directory hparent with habove | ⟨bytes, mtimeMs, habove⟩
      · exact ⟨_, habsence, by simp only [answer, hsource, hold, habove]⟩
      · exact ⟨.system .enotdir, by simp, by simp only [answer, hsource, hold, habove]⟩
      · exact ⟨_, habsence, by simp only [answer, hsource, hold, habove]⟩
      · exact ⟨.system .enotdir, by simp, by simp only [answer, hsource, hold, habove]⟩

/-! ### Streams into a file -/

/-- The bytes that a stream with this fate has put into its open target. -/
def leaves (bytes : Bytes) : Fate → Bytes
  | .completes => bytes
  | .fails _ written => bytes.take (written.getD 0)

/-- A write stream opens its target, and truncates it. -/
def Opens (fate : Fate) (tree : Tree) (target : AbsolutePath) : Prop :=
  (∀ code, fate ≠ .fails code none) ∧ tree.lookup target ≠ some .directory ∧
    tree.lookup target.dirname = some .directory

instance (fate : Fate) (tree : Tree) (target : AbsolutePath) :
    Decidable (Opens fate tree target) :=
  have : Decidable (∀ code, fate ≠ .fails code none) :=
    match fate with
    | .completes => .isTrue (by simp)
    | .fails code none => .isFalse fun h ↦ h code rfl
    | .fails code (some written) => .isTrue (by simp)
  inferInstanceAs (Decidable (_ ∧ _ ∧ _))

/-- An open write stream gets to the end of what is delivered. -/
def Finishes (fate : Fate) (delivery : Delivery) : Prop :=
  fate = .completes ∧ delivery.failure = none

instance (fate : Fate) (delivery : Delivery) : Decidable (Finishes fate delivery) :=
  inferInstanceAs (Decidable (_ ∧ _))

/-- A stream that has opened its target leaves what has got through, and succeeds when it has
finished. -/
theorem writeTo_of_opens {fate : Fate} {tree : Tree} {target : AbsolutePath}
    (h : Opens fate tree target) (delivery : Delivery) (now : ℚ) :
    ∃ outcome, (outcome = .ok () ↔ Finishes fate delivery) ∧
      writeTo target delivery fate now tree =
        (outcome, tree.insert target (.file (leaves delivery.bytes fate) now)) := by
  obtain ⟨hopens, htarget, hdirectory⟩ := h
  cases fate with
  | completes =>
    cases hfailure : delivery.failure with
    | none =>
      refine ⟨.ok (), by simp [Finishes, hfailure], ?_⟩
      rcases lookup_of_ne_directory htarget with hold | ⟨bytes, mtimeMs, hold⟩
      · simp only [writeTo, hold, hdirectory, hfailure, leaves]
      · simp only [writeTo, hold, hdirectory, hfailure, leaves]
    | some failure =>
      refine ⟨.error failure, by simp [Finishes, hfailure], ?_⟩
      rcases lookup_of_ne_directory htarget with hold | ⟨bytes, mtimeMs, hold⟩
      · simp only [writeTo, hold, hdirectory, hfailure, leaves]
      · simp only [writeTo, hold, hdirectory, hfailure, leaves]
  | fails code written =>
    cases written with
    | none => exact absurd rfl (hopens code)
    | some written =>
      refine ⟨.error (.system code), by simp [Finishes], ?_⟩
      rcases lookup_of_ne_directory htarget with hold | ⟨bytes, mtimeMs, hold⟩
      · simp only [writeTo, hold, hdirectory, leaves, Option.getD_some]
      · simp only [writeTo, hold, hdirectory, leaves, Option.getD_some]

/-- A stream whose source fails is rejected with the fault of the source. -/
theorem writeTo_of_failure {tree : Tree} {target : AbsolutePath} (h : Opens .completes tree target)
    {delivery : Delivery} {failure : NodeError} (hfailure : delivery.failure = some failure)
    (now : ℚ) : (writeTo target delivery .completes now tree).1 = .error failure := by
  obtain ⟨-, htarget, hdirectory⟩ := h
  rcases lookup_of_ne_directory htarget with hold | ⟨bytes, mtimeMs, hold⟩
  · simp only [writeTo, hold, hdirectory, hfailure]
  · simp only [writeTo, hold, hdirectory, hfailure]

theorem writeTo_of_not_opens {fate : Fate} {tree : Tree} {target : AbsolutePath}
    (h : ¬ Opens fate tree target) (delivery : Delivery) (now : ℚ) :
    ∃ fault, writeTo target delivery fate now tree = (.error fault, tree) := by
  by_cases hunopened : ∃ code, fate = .fails code none
  · obtain ⟨code, rfl⟩ := hunopened
    exact ⟨_, rfl⟩
  · have hopens : ∀ code, fate ≠ .fails code none := fun code hfate ↦ hunopened ⟨code, hfate⟩
    unfold writeTo
    split
    · exact ⟨_, rfl⟩
    · exact ⟨_, rfl⟩
    · exact ⟨_, rfl⟩
    · exact ⟨_, rfl⟩
    · rename_i hparent htarget
      exact absurd ⟨hopens, htarget, hparent⟩ h
    · rename_i hparent htarget
      exact absurd ⟨hopens, htarget, hparent⟩ h

/-- Copying a file is a stream of its bytes. -/
theorem answer_copyStream {tree : Tree} {source : AbsolutePath} {bytes : Bytes} {mtimeMs : ℚ}
    (h : tree.lookup source = some (.file bytes mtimeMs)) (target : AbsolutePath) (fate : Fate)
    (now : ℚ) :
    answer fate now (.copyStream source target) tree =
      writeTo target { bytes := bytes, failure := none } fate now tree := by
  simp only [answer, h]

/-! ### `rm` and `stat` -/

theorem answer_remove_of_file {tree : Tree} {path : AbsolutePath} {bytes : Bytes} {mtimeMs : ℚ}
    (h : tree.lookup path = some (.file bytes mtimeMs)) (now : ℚ) :
    answer .completes now (.remove path) tree = (.ok (), tree.erase path) := by
  simp only [answer, h]

/-- Where there is nothing, nothing is removed. -/
theorem answer_remove_of_none {tree : Tree} {path : AbsolutePath} (h : tree.lookup path = none)
    (now : ℚ) :
    answer .completes now (.remove path) tree =
      (if blocked tree path.dirname then .error (.system .enotdir) else .ok (), tree) := by
  simp only [answer, h]

theorem answer_remove_of_fails {fate : Fate} (h : fate ≠ .completes) (path : AbsolutePath)
    (tree : Tree) (now : ℚ) :
    ∃ fault, answer fate now (.remove path) tree = (.error fault, tree) := by
  cases fate with
  | completes => exact absurd rfl h
  | fails code written => exact ⟨_, rfl⟩

theorem answer_stat_of_some {tree : Tree} {path : AbsolutePath} {node : Node}
    (h : tree.lookup path = some node) (now : ℚ) :
    answer .completes now (.stat path) tree = (.ok node.stats, tree) := by
  simp only [answer, h]

theorem answer_stat_of_fails {fate : Fate} {tree : Tree} {path : AbsolutePath}
    (h : fate ≠ .completes ∨ tree.lookup path = none) (now : ℚ) :
    ∃ fault, answer fate now (.stat path) tree = (.error fault, tree) := by
  cases fate with
  | fails code written => exact ⟨_, rfl⟩
  | completes =>
    have hnode : tree.lookup path = none := h.resolve_left fun hfails ↦ hfails rfl
    exact ⟨.system (absence tree path), by simp only [answer, hnode]⟩

end FileForge.Foundation.FileWrites
