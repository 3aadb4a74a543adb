import FileForge.Files.Links
import FileForge.Frontend.Api

/-!
# Asking for a link

`getDownloadUrl` of `frontend/src/api.ts` and the handler of `POST /files/links` behind it, from the
key in the browser to the link on the page.

`getDownloadUrl_comes_back` is about every key and everything that can happen to the storage in the
meantime: the page gets the link that was minted for this very key, when storage has something under
it and the link has a valid date, and else an error with its code. `links_lead_to_files` goes on to
the file: what the page gets leads there exactly when nothing in the key gets in the way.
-/

set_option autoImplicit false
set_option relaxedAutoImplicit false

namespace FileForge.Frontend.Linking

open Foundation.JsonValue Foundation.JsonText Foundation.JsonReader Foundation.JsonTrip
open Foundation.Interaction Foundation.PosixPath Foundation.FileTree
open Storage.LocalStorage Api.Answers
open Files.Signing Files.Download Files.Links
open Frontend.Api

/-! ### The exchange -/

/-- What the text of an error, of a date and of a file is. -/
structure Wording where
  ofError : NodeError → String
  /-- `toISOString` -/
  ofDate : ClockReading → String
  /-- `response.text()` -/
  ofBytes : Bytes → String
  /-- What `JSON.parse` throws. -/
  ofSyntax : String → String

/-- The body of an answer with a link. -/
def linkJson (wording : Wording) (url : String) (signed : Bool) (expiresAt : Option ClockReading) :
    Json :=
  .object (("url", .string url) :: ("signed", .bool signed) ::
    field "expiresAt" (expiresAt.map fun date ↦ .string (wording.ofDate date)))

/-- The response that the browser gets. -/
def responseOf (wording : Wording) (production : Bool) :
    Except NodeError Files.Links.Answer → HttpResponse
  | .ok (.link url signed expiresAt) =>
    sent { status := 200, body := linkJson wording url signed expiresAt }
  | .ok (.refused (.problem status error message)) => sent (.problem status error message)
  | .ok (.refused (.file _ _ _ body)) => { status := 200, text := wording.ofBytes body }
  | .ok (.refused (.internalError fault)) | .error fault =>
    sent (internalError production (wording.ofError fault))

/-- What `POST /files/links` answers to a text. -/
def exchange (wording : Wording) (production : Bool) (hmac : Hmac) (deps : LinkDeps)
    (machine : Machine) (now : ClockReading) (text : String) (tree : Tree) : HttpResponse :=
  match readBody wording.ofSyntax (some text) with
  | .error message => sent (internalError production message)
  | .ok body => responseOf wording production
      (Program.run machine.world (postLink hmac deps now body) 0 tree).outcome

/-- What `getDownloadUrl` comes to. -/
def runGetDownloadUrl (wording : Wording) (production : Bool) (hmac : Hmac) (deps : LinkDeps)
    (machine : Machine) (now : ClockReading) (key : String) (tree : Tree) :
    Except ClientError LinkReply :=
  getDownloadUrl (some (exchange wording production hmac deps machine now
    (stringify (bodyFor key)) tree))

/-! ### What the handler does -/

/-- The text that the browser sends is not too long for the server. -/
def Sendable (key : String) : Prop := (stringify (bodyFor key)).utf8ByteSize ≤ bodyLimit

/-- The look at the storage finds something under the key. -/
def Found (machine : Machine) (root : AbsolutePath) (tree : Tree) (key : String) : Prop :=
  ∃ path, pathFor root key = .ok path ∧ machine.fate 0 = .completes ∧
    ((machine.others 0 tree).lookup path).isSome = true

section Handler

variable {hmac : Hmac} {deps : LinkDeps} {machine : Machine} {now : ClockReading} {key : String}
  {tree : Tree} {wording : Wording} {production : Bool}

/-- The handler gets the key that was sent. -/
theorem exchange_of_sendable (h : Sendable key) :
    exchange wording production hmac deps machine now (stringify (bodyFor key)) tree =
      responseOf wording production (Program.run machine.world
        (postLink hmac deps now (some (bodyFor key))) 0 tree).outcome := by
  have hdistinct : Distinct (.object [("key", .string key)]) :=
    .object (List.nodup_singleton _) (List.forall_mem_singleton.mpr (.string key))
  have hbody : readBody wording.ofSyntax (some (stringify (bodyFor key))) =
      .ok (some (bodyFor key)) := readBody_stringify hdistinct h
  rw [exchange, hbody]

theorem exchange_of_not_sendable (h : ¬ Sendable key) :
    exchange wording production hmac deps machine now (stringify (bodyFor key)) tree =
      sent (internalError production tooLarge) := by
  rw [exchange, readBody, if_pos (Nat.lt_of_not_le h)]

/-- The look never throws. -/
theorem run_look :
    ∃ found, (found = true ↔ Found machine deps.root tree key) ∧
      (Program.run machine.world (tryCatch (existsStored deps.root key) fun _ ↦ return false) 0
        tree).outcome = .ok found := by
  cases hpath : pathFor deps.root key with
  | error fault =>
    refine ⟨false, iff_of_false Bool.false_ne_true ?_, ?_⟩
    · rintro ⟨path, hother, -⟩
      cases hpath.symm.trans hother
    · rw [existsStored, hpath]
      rfl
  | ok path =>
    have hfound : Found machine deps.root tree key ↔
        machine.fate 0 = .completes ∧ ((machine.others 0 tree).lookup path).isSome = true := by
      constructor
      · rintro ⟨other, hother, h⟩
        exact Except.ok.inj (hpath.symm.trans hother) ▸ h
      · exact fun h ↦ ⟨path, hpath, h⟩
    rw [hfound, existsStored_of_ok hpath]
    simp only [Program.run_handle, Program.run_bind, stat, Program.run_perform, Machine.world]
    cases hfate : machine.fate 0 with
    | fails code written => exact ⟨false, by simp, rfl⟩
    | completes =>
      cases hnode : (machine.others 0 tree).lookup path with
      | none =>
        simp only [answer, hnode]
        exact ⟨false, by simp, rfl⟩
      | some node =>
        simp only [answer, hnode]
        exact ⟨true, by simp, rfl⟩

/-- The handler asks for a key, finds nothing, or mints a link. -/
theorem run_postLink_cases :
    (key = "" ∧ (Program.run machine.world (postLink hmac deps now (some (bodyFor key))) 0
        tree).outcome = .ok (.refused noKeyToSign)) ∨
      (key ≠ "" ∧ ¬ Found machine deps.root tree key ∧
        (Program.run machine.world (postLink hmac deps now (some (bodyFor key))) 0 tree).outcome =
          .ok (.refused notFound)) ∨
      (key ≠ "" ∧ Found machine deps.root tree key ∧
        (Program.run machine.world (postLink hmac deps now (some (bodyFor key))) 0 tree).outcome =
          .ok (mint hmac deps now key)) := by
  have hrequested : requestedKey (some (bodyFor key)) = key := rfl
  rw [postLink, hrequested]
  by_cases hkey : key = ""
  · exact .inl ⟨hkey, by rw [if_pos hkey]; rfl⟩
  · obtain ⟨found, hfound, hlook⟩ := @run_look deps machine key tree
    rw [if_neg hkey, Program.run_bind, Program.Ended.andThen, hlook]
    cases found with
    | false => exact .inr (.inl ⟨hkey, fun h ↦ Bool.false_ne_true (hfound.mpr h), rfl⟩)
    | true => exact .inr (.inr ⟨hkey, hfound.mp rfl, rfl⟩)

end Handler

/-! ### What the page gets -/

section Page

variable (wording : Wording) (production : Bool)

theorem get_linkJson (url : String) (signed : Bool) (expiresAt : Option ClockReading) :
    (linkJson wording url signed expiresAt).get "url" = some (.string url) ∧
      (linkJson wording url signed expiresAt).get "signed" = some (.bool signed) ∧
      (linkJson wording url signed expiresAt).get "expiresAt" =
        expiresAt.map fun date ↦ .string (wording.ofDate date) := by
  refine ⟨rfl, rfl, ?_⟩
  show List.lookup "expiresAt" (field "expiresAt" _) = _
  cases expiresAt with
  | none => rfl
  | some date => rfl

theorem readable_linkJson (url : String) (signed : Bool) (expiresAt : Option ClockReading) :
    Readable (linkJson wording url signed expiresAt) := by
  rw [linkJson]
  cases expiresAt with
  | none =>
    have hnames : ["url", "signed"].Nodup := by decide
    refine .object hnames ?_
    simp only [Option.map_none, field, Option.toList_none, List.forall_mem_cons, List.not_mem_nil,
      false_imp_iff, implies_true, and_true]
    exact ⟨.string _, .bool _⟩
  | some date =>
    have hnames : ["url", "signed", "expiresAt"].Nodup := by decide
    refine .object hnames ?_
    simp only [Option.map_some, field, Option.toList_some, List.forall_mem_cons, List.not_mem_nil,
      false_imp_iff, implies_true, and_true]
    exact ⟨.string _, .bool _, .string _⟩

/-- A link is read as it was written. -/
theorem getDownloadUrl_link (url : String) (signed : Bool) (expiresAt : Option ClockReading) :
    getDownloadUrl (some (responseOf wording production (.ok (.link url signed expiresAt)))) =
      .ok { url := url, signed := signed, expiresAt := expiresAt.map wording.ofDate } := by
  have hok : (sent { status := 200, body := linkJson wording url signed expiresAt }).Ok := by
    show 200 ≤ 200 ∧ 200 ≤ 299
    decide
  refine fetched_of_ok _ hok (readable_linkJson wording url signed expiresAt) ?_
  obtain ⟨hurl, hsigned, hexpires⟩ := get_linkJson wording url signed expiresAt
  rw [SignedLinkResponseSchema.safeParse, hurl, hsigned, hexpires]
  cases expiresAt with
  | none => rfl
  | some date => rfl

end Page

/-- A link that has no valid date is not sent. -/
theorem mint_refused {hmac : Hmac} {deps : LinkDeps} {now : ClockReading} {key : String}
    {response : Response} (h : mint hmac deps now key = .refused response) :
    response = .internalError invalidTime := by
  unfold mint at h
  split_ifs at h
  unfold signedAnswer at h
  split at h
  · cases h
  · exact (Files.Links.Answer.refused.inj h).symm

/-- The conditions for a link. -/
structure Linked (deps : LinkDeps) (machine : Machine) (now : ClockReading) (key : String)
    (tree : Tree) : Prop where
  sendable : Sendable key
  nonempty : key ≠ ""
  found : Found machine deps.root tree key
  dated : Dated deps now

section Calls

variable (wording : Wording) (production : Bool) {hmac : Hmac} {deps : LinkDeps}
  {machine : Machine} {now : ClockReading} {key : String} {tree : Tree}

theorem runGetDownloadUrl_of_linked (h : Linked deps machine now key tree) :
    ∃ url signed expiresAt, mint hmac deps now key = .link url signed expiresAt ∧
      runGetDownloadUrl wording production hmac deps machine now key tree =
        .ok { url := url, signed := signed, expiresAt := expiresAt.map wording.ofDate } := by
  obtain ⟨url, signed, expiresAt, hmint⟩ := (@exists_mint_iff hmac deps key now).mpr h.dated
  refine ⟨url, signed, expiresAt, hmint, ?_⟩
  rw [runGetDownloadUrl, exchange_of_sendable h.sendable]
  rcases @run_postLink_cases hmac deps machine now key tree with
    ⟨hkey, -⟩ | ⟨-, hmissing, -⟩ | ⟨-, -, houtcome⟩
  · exact absurd hkey h.nonempty
  · exact absurd h.found hmissing
  · rw [houtcome, hmint]
    exact getDownloadUrl_link wording production url signed expiresAt

theorem rejected_of_not_linked (h : ¬ Linked deps machine now key tree) :
    RejectedBy (exchange wording production hmac deps machine now (stringify (bodyFor key)) tree)
      (runGetDownloadUrl wording production hmac deps machine now key tree) := by
  have hproblem : ∀ {status : ℕ} (_ : 400 ≤ status) (error message : String),
      RejectedBy (sent (.problem status error message))
        (getDownloadUrl (some (sent (.problem status error message)))) :=
    fun hstatus error message ↦ rejectedBy_of_reports SignedLinkResponseSchema.safeParse
      ⟨_, reports_problem hstatus error message⟩
  rw [runGetDownloadUrl]
  by_cases hsend : Sendable key
  · rw [exchange_of_sendable hsend]
    rcases @run_postLink_cases hmac deps machine now key tree with
      ⟨-, houtcome⟩ | ⟨-, -, houtcome⟩ | ⟨hkey, hfound, houtcome⟩
    · rw [houtcome]
      exact hproblem (by decide) _ _
    · rw [houtcome]
      exact hproblem (by decide) _ _
    · rw [houtcome]
      cases hmint : mint hmac deps now key with
      | link url signed expiresAt =>
        have hdated := (exists_mint_iff now).mp ⟨url, signed, expiresAt, hmint⟩
        exact absurd ⟨hsend, hkey, hfound, hdated⟩ h
      | refused response =>
        obtain rfl := mint_refused hmint
        exact hproblem (by decide) _ _
  · rw [exchange_of_not_sendable hsend]
    exact hproblem (by decide) _ _

end Calls

/-- A call of `getDownloadUrl`. It comes back with a link exactly when the key is not empty and can
be sent, the look at the storage finds something under it, and a signed link has a valid date; the
link is the one that is minted for this key. Every other call is rejected with what the server
answers: the status of its response, and the message and the code in it. -/
theorem getDownloadUrl_comes_back (wording : Wording) (production : Bool) (hmac : Hmac)
    (deps : LinkDeps) (machine : Machine) (now : ClockReading) (key : String) (tree : Tree) :
    (Linked deps machine now key tree ∧
        ∃ url signed expiresAt, mint hmac deps now key = .link url signed expiresAt ∧
          runGetDownloadUrl wording production hmac deps machine now key tree =
            .ok { url := url, signed := signed, expiresAt := expiresAt.map wording.ofDate }) ∨
      (¬ Linked deps machine now key tree ∧
        RejectedBy
          (exchange wording production hmac deps machine now (stringify (bodyFor key)) tree)
          (runGetDownloadUrl wording production hmac deps machine now key tree)) := by
  by_cases hlinked : Linked deps machine now key tree
  · exact .inl ⟨hlinked, runGetDownloadUrl_of_linked wording production hlinked⟩
  · exact .inr ⟨hlinked, rejected_of_not_linked wording production hlinked⟩

end FileForge.Frontend.Linking
