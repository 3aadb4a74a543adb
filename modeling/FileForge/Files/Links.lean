import FileForge.Foundation.JsonValue
import FileForge.Foundation.WebUrl
import FileForge.Csv.OutputKeys
import FileForge.Files.Download

/-!
# Links to produced files

`POST /files/links` of `src/files/download.ts`, and what becomes of the url that it answers with: a
client resolves it as a web address, the router matches the path against `/files/*splat` and decodes
each segment, and the download route answers.

The key stands in the url as it is, so it arrives only when nothing in it means something in an
address (`Literal`): `route_iff` says that the route gets the key back exactly then. Together with
the header of the download and the date of the answer, `fetched_iff` says for the key of every
produced file when its link leads to the file.
-/

set_option autoImplicit false
set_option relaxedAutoImplicit false

namespace FileForge.Files.Links

open Foundation Foundation.EcmaNumber Foundation.Interaction Foundation.JsonValue
open Foundation.PosixPath Foundation.FileTree Foundation.QueryString
open Storage.LocalStorage Signing Download Csv.OutputKeys

/-! ### Minting -/

/-- `DownloadRouterDeps`, with the lifetime of a link: the configuration takes safe integers. -/
structure LinkDeps extends Deps where
  downloadTtlSeconds : ℕ
  safe : downloadTtlSeconds < 2 ^ 53

/-- How `POST /files/links` answers. -/
inductive Answer
  | refused (response : Response)
  /-- The url, whether it is signed, and the date that is written as `expiresAt`. -/
  | link (url : String) (signed : Bool) (expiresAt : Option ClockReading)

/-- The key of a body, empty when there is no string. -/
def requestedKey (body : Option Json) : String :=
  ((body.bind (Json.get "key")).bind Json.asString).getD ""

/-- The body of a client that asks for a key. -/
def bodyFor (key : String) : Json := .object [("key", .string key)]

def noKeyToSign : Response := .problem 422 "invalid_request" "Provide the storage key to sign"

/-- What `toISOString` throws. -/
def invalidTime : NodeError := .thrown "Invalid time value"

/-- The answer with a signed link. -/
def signedAnswer (link : SignedLink) : Answer :=
  match dateOf (link.expires.mul (ofRat (1000 : ℤ))) with
  | some date => .link ("/files/" ++ link.key ++ "?" ++ signedQuery link) true (some date)
  | none => .refused (.internalError invalidTime)

/-- The link for a key, when signing is on. -/
def linkFor (hmac : Hmac) (deps : LinkDeps) (now : ClockReading) (key : String) : SignedLink :=
  createSignedLink hmac key deps.downloadSecret (ofRat deps.downloadTtlSeconds) now

/-- The answer for a key that storage has. -/
def mint (hmac : Hmac) (deps : LinkDeps) (now : ClockReading) (key : String) : Answer :=
  if deps.downloadSecret = "" then .link ("/files/" ++ key) false none
  else signedAnswer (linkFor hmac deps now key)

/-- `POST /files/links`. -/
def postLink (hmac : Hmac) (deps : LinkDeps) (now : ClockReading) (body : Option Json) :
    Fs Answer :=
  if requestedKey body = "" then return .refused noKeyToSign
  else do
    let found ← tryCatch (existsStored deps.root (requestedKey body)) fun _ ↦ return false
    if found then return mint hmac deps now (requestedKey body)
    else return .refused notFound

/-! ### Following a link -/

/-- The match of `/files/*splat`: the wildcard takes at least one character, and its segments are
decoded one by one. `none` when the path is not matched, or a segment cannot be decoded. -/
def route (target : WebUrl.Target) : Option Request :=
  match target.pathname.splitOn '/' with
  | [] :: first :: rest =>
    if first.map Char.toLower = ['f', 'i', 'l', 'e', 's'] ∧ rest ≠ [] ∧ rest ≠ [[]] then
      (rest.mapM decodeURIComponent).map fun segments ↦ {
        splat := .segments (segments.map String.ofList)
        query := parse (String.ofList (target.query.getD [])) }
    else none
  | _ => none

/-- The request carries the expiry and the signature of a link. -/
def Carries (request : Request) (link : SignedLink) : Prop :=
  request.query.text "expires" = some (toText link.expires) ∧
    request.query.text "signature" = some link.signature

/-- The link that is minted for a key leads to its file: `POST /files/links` answers with a url that
resolves to a request of the download route with this key, and with the expiry and the signature of
the link when signing is on, and the answer to this request is the file. -/
def Fetched (hmac : Hmac) (deps : LinkDeps) (now later : ClockReading) (key : String)
    (bytes : Bytes) (tree : Tree) : Prop :=
  ∃ url signed expiresAt target request contentType disposition,
    (Program.run (sweeping fun _ ↦ []).world (postLink hmac deps now (some (bodyFor key))) 0
      tree).outcome = .ok (.link url signed expiresAt) ∧
    WebUrl.resolve url.toList = some target ∧ route target = some request ∧
    request.splat.key = key ∧
    (deps.downloadSecret ≠ "" → Carries request (linkFor hmac deps now key)) ∧
    exchange hmac deps.toDeps later request (fun _ ↦ []) tree =
      .ok (.answered (.file contentType bytes.length disposition bytes))

/-- Nothing in the key means something in an address. -/
structure Literal (key : String) : Prop where
  hash : '#' ∉ key.toList
  percent : '%' ∉ key.toList
  backslash : ∀ c ∈ key.toList, WebUrl.isBackslash c = false
  dots : ∀ segment ∈ splitSlash key, segment ≠ "." ∧ segment ≠ ".."

/-- The last component of the key may stand in a header. -/
def Headed (key : String) : Prop := ∀ c ∈ (basename key).toList, isHeaderChar c = true

/-! ### The path of a link -/

/-- What follows the first slash of a link: the key, and the query if there is one. -/
def afterSlash (key tail : List Char) : List Char := ['f', 'i', 'l', 'e', 's', '/'] ++ key ++ tail

/-- A query with its question mark, or nothing. -/
inductive IsTail : List Char → Prop
  | none : IsTail []
  | query {query : List Char} (h : '#' ∉ query) : IsTail ('?' :: query)

section Path

variable {key tail : List Char}

theorem takeWhile_ne_eq_self {separator : Char} {chars : List Char} (h : separator ∉ chars) :
    chars.takeWhile (· ≠ separator) = chars := by
  rw [List.takeWhile_eq_self_iff]
  intro c hc
  rw [decide_eq_true_iff]
  rintro rfl
  exact h hc

theorem IsTail.hash_not_mem (h : IsTail tail) : '#' ∉ tail := by
  cases h with
  | none => exact List.not_mem_nil
  | query hquery =>
    rw [List.mem_cons, not_or]
    exact ⟨by decide, hquery⟩

/-- The characters of the route mean nothing of their own in an address. -/
theorem forall_mem_files :
    ∀ c ∈ ['f', 'i', 'l', 'e', 's', '/'], c ≠ '#' ∧ c ≠ '?' ∧ 0x20 ≤ c.toNat :=
  EcmaText.forall_mem_of_all (by decide)

/-- What stands before the first `#`: the rest of the link, unless the key has one. -/
theorem takeWhile_afterSlash (htail : IsTail tail) :
    (afterSlash key tail).takeWhile (· ≠ '#') = ['f', 'i', 'l', 'e', 's', '/'] ++
      if '#' ∈ key then key.takeWhile (· ≠ '#') else key ++ tail := by
  have hfixed : ∀ c ∈ ['f', 'i', 'l', 'e', 's', '/'], decide (c ≠ '#') = true :=
    fun c hc ↦ decide_eq_true (forall_mem_files c hc).1
  rw [afterSlash, List.append_assoc, List.takeWhile_append_of_pos hfixed]
  congr 1
  split_ifs with hhash
  · rw [List.takeWhile_append, if_neg]
    intro hlength
    have hall := List.takeWhile_eq_self_iff.mp
      ((List.takeWhile_prefix (· ≠ '#')).eq_of_length hlength) '#' hhash
    exact of_decide_eq_true hall rfl
  · apply takeWhile_ne_eq_self
    rw [List.mem_append, not_or]
    exact ⟨hhash, htail.hash_not_mem⟩

/-- Up to the first `#` of the key, the path is the key. -/
theorem path_afterSlash (hkey : '?' ∉ key) (htail : IsTail tail) :
    ((afterSlash key tail).takeWhile (· ≠ '#')).takeWhile (· ≠ '?') =
      ['f', 'i', 'l', 'e', 's', '/'] ++ key.takeWhile (· ≠ '#') := by
  have hfixed : ∀ c ∈ ['f', 'i', 'l', 'e', 's', '/'], decide (c ≠ '?') = true :=
    fun c hc ↦ decide_eq_true (forall_mem_files c hc).2.1
  rw [takeWhile_afterSlash htail, List.takeWhile_append_of_pos hfixed]
  congr 1
  split_ifs with hhash
  · apply takeWhile_ne_eq_self
    exact fun hmem ↦ hkey ((List.takeWhile_sublist _).mem hmem)
  · rw [takeWhile_ne_eq_self hhash]
    have hbefore : ∀ c ∈ key, decide (c ≠ '?') = true := by
      intro c hc
      rw [decide_eq_true_iff]
      rintro rfl
      exact hkey hc
    rw [List.takeWhile_append_of_pos hbefore]
    cases htail <;> simp

/-- Assumes: no `#` in the key. The query is what follows the key. -/
theorem query_afterSlash (hkey : '?' ∉ key) (hhash : '#' ∉ key) (htail : IsTail tail) :
    ((afterSlash key tail).takeWhile (· ≠ '#')).dropWhile (· ≠ '?') = tail := by
  have hbefore : ∀ c ∈ ['f', 'i', 'l', 'e', 's', '/'] ++ key, decide (c ≠ '?') = true := by
    intro c hc
    rcases List.mem_append.mp hc with hfixed | hkeyed
    · exact decide_eq_true (forall_mem_files c hfixed).2.1
    · rw [decide_eq_true_iff]
      rintro rfl
      exact hkey hkeyed
  rw [takeWhile_afterSlash htail, if_neg hhash, ← List.append_assoc,
    List.dropWhile_append_of_pos hbefore]
  cases htail <;> rfl

/-- The segments of the path of a link. -/
theorem splitPath_files (chars : List Char) :
    WebUrl.splitPath (['f', 'i', 'l', 'e', 's', '/'] ++ chars) =
      ['f', 'i', 'l', 'e', 's'] :: WebUrl.splitPath chars := by
  have hslashed : WebUrl.slashed (['f', 'i', 'l', 'e', 's', '/'] ++ chars) =
      ['f', 'i', 'l', 'e', 's'] ++ '/' :: WebUrl.slashed chars := by
    rw [WebUrl.slashed, List.map_append]
    rfl
  rw [WebUrl.splitPath, hslashed, List.splitOn_append_cons_self_of_not_mem (by decide)]
  rfl

end Path

/-! ### The route gets the key back -/

theorem ofList_eq_iff {chars : List Char} {text : String} :
    String.ofList chars = text ↔ chars = text.toList := by
  constructor
  · rintro rfl
    exact String.toList_ofList.symm
  · rintro rfl
    exact String.ofList_toList

/-- No segment of a key is one that an address resolves. -/
theorem dots_iff {key : String} (hpercent : '%' ∉ key.toList) :
    (∀ segment ∈ splitSlash key, segment ≠ "." ∧ segment ≠ "..") ↔
      ∀ segment ∈ key.toList.splitOn '/', WebUrl.isDot segment = false := by
  have hsegment : ∀ segment ∈ key.toList.splitOn '/',
      (WebUrl.isDot segment = false ↔
        String.ofList segment ≠ "." ∧ String.ofList segment ≠ "..") := by
    intro segment hmem
    have hplain : '%' ∉ segment := fun hc ↦
      hpercent ((WebUrl.mem_splitOn_iff (by decide)).mp ⟨segment, hmem, hc⟩)
    rw [← Bool.not_eq_true, WebUrl.isDot_iff hplain, not_or]
    exact and_congr (not_congr (@ofList_eq_iff segment ".").symm)
      (not_congr (@ofList_eq_iff segment "..").symm)
  constructor
  · intro h segment hmem
    exact (hsegment segment hmem).mpr (h _ (List.mem_map_of_mem hmem))
  · intro h text hmem
    obtain ⟨segment, hsplit, rfl⟩ := List.mem_map.mp hmem
    exact (hsegment segment hsplit).mp (h segment hsplit)

/-- The key that a request names, as a list of characters. -/
theorem toList_key {segments : List (List Char)} {query : Query} :
    (Request.mk (.segments (segments.map String.ofList)) query).splat.key.toList =
      ['/'].intercalate segments := by
  show ("/".intercalate (segments.map String.ofList)).toList = _
  have hsegments : (segments.map String.ofList).map String.toList = segments := by
    rw [List.map_map]
    exact List.map_id'' (fun _ ↦ String.toList_ofList) segments
  rw [String.toList_intercalate, hsegments]
  rfl

section Routed

variable {key : String} {tail : List Char}

/-- The query that the client sends. -/
def sentQuery (tail : List Char) : List Char :=
  WebUrl.percentEncode WebUrl.inSpecialQuerySet tail.tail

/-- The path of the route, with its segments. -/
theorem route_eq {target : WebUrl.Target} {first : List Char} {rest : List (List Char)}
    (h : target.pathname.splitOn '/' = [] :: first :: rest) :
    route target =
      if first.map Char.toLower = ['f', 'i', 'l', 'e', 's'] ∧ rest ≠ [] ∧ rest ≠ [[]] then
        (rest.mapM decodeURIComponent).map fun segments ↦ {
          splat := .segments (segments.map String.ofList)
          query := parse (String.ofList (target.query.getD [])) }
      else none := by
  rw [route, h]

theorem getD_query (hkey : '?' ∉ key.toList) (hhash : '#' ∉ key.toList) (htail : IsTail tail) :
    (WebUrl.targetOf (afterSlash key.toList tail)).query.getD [] = sentQuery tail := by
  rw [WebUrl.targetOf]
  dsimp only
  rw [query_afterSlash hkey hhash htail]
  cases htail <;> rfl

/-- The segments that the server finds in the path of a link. -/
theorem splitOn_pathname_afterSlash (hkey : '?' ∉ key.toList) (htail : IsTail tail) :
    (WebUrl.targetOf (afterSlash key.toList tail)).pathname.splitOn '/' =
      [] :: (WebUrl.walk [] (['f', 'i', 'l', 'e', 's'] ::
        WebUrl.splitPath (key.toList.takeWhile (· ≠ '#')))).map
          (WebUrl.percentEncode WebUrl.inPathSet) := by
  rw [WebUrl.splitOn_pathname, path_afterSlash hkey htail, splitPath_files]

/-- Assumes: a literal key. The route gets the key, and the query. -/
theorem route_of_literal (hliteral : Literal key) (hne : key ≠ "") (hkey : '?' ∉ key.toList)
    (htail : IsTail tail) :
    route (WebUrl.targetOf (afterSlash key.toList tail)) = some {
      splat := .segments (splitSlash key)
      query := parse (String.ofList (sentQuery tail)) } := by
  have hsplit : WebUrl.splitPath (key.toList.takeWhile (· ≠ '#')) = key.toList.splitOn '/' := by
    rw [takeWhile_ne_eq_self hliteral.hash, WebUrl.splitPath,
      (WebUrl.slashed_eq_self_iff _).mpr hliteral.backslash]
  have hpercent : ∀ segment ∈ key.toList.splitOn '/', '%' ∉ segment := fun segment hmem hc ↦
    hliteral.percent ((WebUrl.mem_splitOn_iff (by decide)).mp ⟨segment, hmem, hc⟩)
  have hdot := (dots_iff hliteral.percent).mp hliteral.dots
  have hwalk : WebUrl.walk [] (['f', 'i', 'l', 'e', 's'] :: key.toList.splitOn '/') =
      ['f', 'i', 'l', 'e', 's'] :: key.toList.splitOn '/' := by
    rw [WebUrl.walk_of_not_dot, List.nil_append]
    intro segment hmem
    rcases List.mem_cons.mp hmem with rfl | hmem
    · rfl
    · exact hdot segment hmem
  have hpath := splitOn_pathname_afterSlash hkey htail
  rw [hsplit, hwalk, List.map_cons] at hpath
  have hwildcard : (key.toList.splitOn '/').map (WebUrl.percentEncode WebUrl.inPathSet) ≠ [] ∧
      (key.toList.splitOn '/').map (WebUrl.percentEncode WebUrl.inPathSet) ≠ [[]] := by
    constructor
    · intro hnil
      exact List.splitOn_ne_nil '/' key.toList (List.map_eq_nil_iff.mp hnil)
    · intro hsingle
      obtain ⟨segment, hsegment, hempty⟩ := List.map_eq_singleton_iff.mp hsingle
      have hchars : ['/'].intercalate (key.toList.splitOn '/') = key.toList :=
        List.intercalate_splitOn '/'
      rw [hsegment, WebUrl.percentEncode_eq_nil hempty] at hchars
      exact hne (String.toList_eq_nil_iff.mp hchars.symm)
  rw [route_eq hpath, if_pos ⟨rfl, hwildcard⟩, WebUrl.mapM_decodeURIComponent,
    WebUrl.mapM_carried hpercent, getD_query hkey hliteral.hash htail]
  rfl

/-- The first segment of a path that the route takes stands for itself and has five bytes. -/
theorem carried_first {written : List Char}
    (h : (WebUrl.percentEncode WebUrl.inPathSet written).map Char.toLower =
      ['f', 'i', 'l', 'e', 's']) :
    WebUrl.carried written = some written ∧ WebUrl.byteLength written = 5 := by
  have hencoded : '%' ∉ WebUrl.percentEncode WebUrl.inPathSet written := by
    intro hmem
    have hlower := List.mem_map_of_mem (f := Char.toLower) hmem
    rw [h] at hlower
    exact absurd hlower (by decide)
  have hsame := WebUrl.eq_of_percent_not_mem hencoded
  constructor
  · rw [hsame] at hencoded
    exact WebUrl.decodeURIComponent_percentEncode hencoded
  · rw [← WebUrl.byteLength_map_toLower, ← hsame, h]
    rfl

/-- Assumes: the route gets the key. Then nothing in the key was changed on the way. -/
theorem literal_of_route (hkey : '?' ∉ key.toList) (htail : IsTail tail) {request : Request}
    (hroute : route (WebUrl.targetOf (afterSlash key.toList tail)) = some request)
    (hsplat : request.splat.key = key) : Literal key := by
  have hpath := splitOn_pathname_afterSlash hkey htail
  cases hwalk : WebUrl.walk [] (['f', 'i', 'l', 'e', 's'] ::
      WebUrl.splitPath (key.toList.takeWhile (· ≠ '#'))) with
  | nil =>
    rw [route, hpath, hwalk] at hroute
    cases hroute
  | cons written rest =>
    rw [hwalk, List.map_cons] at hpath
    rw [route_eq hpath] at hroute
    split_ifs at hroute with hmatch
    obtain ⟨decoded, hdecoded, hrequest⟩ := Option.map_eq_some_iff.mp hroute
    rw [WebUrl.mapM_decodeURIComponent] at hdecoded
    obtain ⟨hcarried, hfive⟩ := carried_first hmatch.1
    have hall : (WebUrl.walk [] (['f', 'i', 'l', 'e', 's'] ::
        WebUrl.splitPath (key.toList.takeWhile (· ≠ '#')))).mapM WebUrl.carried =
          some (written :: decoded) := by
      rw [hwalk, List.mapM_cons, hcarried, hdecoded]
      rfl
    have hrest : rest ≠ [] := fun hnil ↦ hmatch.2.1 (by rw [hnil]; rfl)
    have hkeyChars : ['/'].intercalate decoded = key.toList := by
      rw [← toList_key, hrequest, hsplat]
    have hjoined : WebUrl.joined decoded = '/' :: key.toList := by
      rw [WebUrl.joined_eq_intercalate (WebUrl.mapM_carried_ne_nil hdecoded hrest), hkeyChars]
    have hfiles : WebUrl.byteLength ['f', 'i', 'l', 'e', 's'] = 5 := rfl
    have hwritten := WebUrl.byteLength_joined_cons ['f', 'i', 'l', 'e', 's']
      (WebUrl.splitPath (key.toList.takeWhile (· ≠ '#')))
    have harrived := WebUrl.byteLength_joined_cons written decoded
    rw [WebUrl.byteLength_joined_splitPath] at hwritten
    rw [hjoined, WebUrl.byteLength_slash_cons] at harrived
    have hcut : WebUrl.byteLength (key.toList.takeWhile (· ≠ '#')) +
        WebUrl.byteLength (key.toList.dropWhile (· ≠ '#')) = WebUrl.byteLength key.toList := by
      rw [← WebUrl.byteLength_append, List.takeWhile_append_dropWhile]
    obtain ⟨hdot, hpercent⟩ := WebUrl.literal_of_byteLength_le hall (by omega)
    -- the walk has kept every segment, and the server has decoded each to itself
    rw [WebUrl.walk_of_not_dot hdot, List.nil_append] at hwalk
    obtain ⟨hfirst, hsegments⟩ := List.cons.inj hwalk
    rw [← hsegments, WebUrl.mapM_carried fun segment hmem ↦
      hpercent segment (List.mem_cons_of_mem _ hmem)] at hdecoded
    have hslashed : WebUrl.slashed (key.toList.takeWhile (· ≠ '#')) = key.toList := by
      rw [← Option.some.inj hdecoded, WebUrl.splitPath, List.intercalate_splitOn] at hkeyChars
      exact hkeyChars
    have hlength := congrArg WebUrl.byteLength hslashed
    rw [WebUrl.byteLength_slashed] at hlength
    have hnone : key.toList.dropWhile (· ≠ '#') = [] := by
      by_contra hne
      have hpos := WebUrl.byteLength_pos hne
      omega
    have hwhole : key.toList.takeWhile (· ≠ '#') = key.toList := by
      conv_rhs => rw [← List.takeWhile_append_dropWhile (p := (· ≠ '#')) (l := key.toList)]
      rw [hnone, List.append_nil]
    rw [hwhole] at hslashed hdot hpercent
    have hsplit : WebUrl.splitPath key.toList = key.toList.splitOn '/' := by
      rw [WebUrl.splitPath, hslashed]
    rw [hsplit] at hdot hpercent
    have hpercentKey : '%' ∉ key.toList := by
      intro hmem
      obtain ⟨segment, hsegment, hc⟩ := (WebUrl.mem_splitOn_iff (by decide)).mpr hmem
      exact hpercent segment (List.mem_cons_of_mem _ hsegment) hc
    refine ⟨?_, hpercentKey, (WebUrl.slashed_eq_self_iff _).mp hslashed, ?_⟩
    · intro hmem
      exact of_decide_eq_true (List.takeWhile_eq_self_iff.mp hwhole '#' hmem) rfl
    · exact (dots_iff hpercentKey).mpr fun segment hmem ↦
        hdot segment (List.mem_cons_of_mem _ hmem)

/-- The route gets the key back exactly when the key is literal. -/
theorem route_iff (hne : key ≠ "") (hkey : '?' ∉ key.toList) (htail : IsTail tail) :
    (∃ request, route (WebUrl.targetOf (afterSlash key.toList tail)) = some request ∧
      request.splat.key = key) ↔ Literal key := by
  constructor
  · rintro ⟨request, hroute, hsplat⟩
    exact literal_of_route hkey htail hroute hsplat
  · intro hliteral
    refine ⟨_, route_of_literal hliteral hne hkey htail, ?_⟩
    apply String.toList_injective
    rw [splitSlash, toList_key, List.intercalate_splitOn]

end Routed

/-! ### The answers -/

section Answers

variable {hmac : Hmac} {deps : LinkDeps} {key : String} {path : AbsolutePath} {bytes : Bytes}
  {mtimeMs : ℚ} {tree : Tree}

theorem sweptTree_nil (tree : Tree) (calls : ℕ) : sweptTree (fun _ ↦ []) tree calls = tree := by
  induction calls with
  | zero => rfl
  | succ calls ih => exact ih

/-- Assumes: storage has the file. The link is minted. -/
theorem run_postLink (hne : key ≠ "") (hpath : pathFor deps.root key = .ok path)
    (hstored : tree.lookup path = some (.file bytes mtimeMs)) (now : ClockReading) :
    (Program.run (sweeping fun _ ↦ []).world (postLink hmac deps now (some (bodyFor key))) 0
      tree).outcome = .ok (mint hmac deps now key) := by
  have hrequested : requestedKey (some (bodyFor key)) = key := rfl
  rw [postLink, hrequested, if_neg hne, Program.run_bind, run_found hpath, sweptTree_nil, hstored]
  rfl

/-- The url of a link, as a list of characters. -/
theorem toList_url (key : String) (tail : List Char) :
    ("/files/" ++ key ++ String.ofList tail).toList = '/' :: afterSlash key.toList tail := by
  rw [String.toList_append, String.toList_append, @String.toList_ofList tail]
  rfl

/-- What follows the key in its link. -/
def linkTail (hmac : Hmac) (deps : LinkDeps) (now : ClockReading) (key : String) : List Char :=
  if deps.downloadSecret = "" then []
  else '?' :: (signedQuery (linkFor hmac deps now key)).toList

/-- Signing is off, or the link expires at a valid date. -/
def Dated (deps : LinkDeps) (now : ClockReading) : Prop :=
  deps.downloadSecret = "" ∨ now.ms / 1000 + (deps.downloadTtlSeconds : ℤ) ≤ 8640000000000

/-- The url of a link is the key, with the query of a signed link. -/
theorem toList_url_of_mint {now : ClockReading} {url : String} {signed : Bool}
    {expiresAt : Option ClockReading}
    (h : mint hmac deps now key = .link url signed expiresAt) :
    url.toList = '/' :: afterSlash key.toList (linkTail hmac deps now key) := by
  unfold mint at h
  split_ifs at h with hsecret
  · cases h
    rw [linkTail, if_pos hsecret, ← toList_url, String.ofList_nil, String.append_empty]
  · unfold signedAnswer at h
    split at h
    · cases h
      have hquery : String.ofList ('?' :: (signedQuery (linkFor hmac deps now key)).toList) =
          "?" ++ signedQuery (linkFor hmac deps now key) := by
        apply String.toList_injective
        rw [String.toList_ofList, @String.toList_append "?"]
        rfl
      rw [linkTail, if_neg hsecret, ← toList_url, hquery, ← String.append_assoc]
      rfl
    · cases h

/-- A link is answered with when signing is off, or its date is valid. -/
theorem exists_mint_iff (now : ClockReading) :
    (∃ url signed expiresAt, mint hmac deps now key = .link url signed expiresAt) ↔
      Dated deps now := by
  rw [Dated, ← dateOf_expires_isSome_iff hmac key deps.downloadSecret deps.safe now, mint]
  by_cases hsecret : deps.downloadSecret = ""
  · rw [if_pos hsecret]
    exact iff_of_true ⟨_, _, _, rfl⟩ (Or.inl hsecret)
  · rw [if_neg hsecret, signedAnswer, linkFor]
    cases dateOf ((createSignedLink hmac key deps.downloadSecret
        (ofRat deps.downloadTtlSeconds) now).expires.mul (ofRat (1000 : ℤ))) with
    | none =>
      refine iff_of_false ?_ (not_or.mpr ⟨hsecret, Bool.false_ne_true⟩)
      rintro ⟨url, signed, expiresAt, hanswer⟩
      cases hanswer
    | some date => exact iff_of_true ⟨_, _, _, rfl⟩ (Or.inr rfl)

/-- The header of a download is admitted when the last component of the key is. -/
theorem all_contentDisposition_iff (key : String) :
    (contentDisposition key).toList.all isHeaderChar = true ↔ Headed key := by
  have hstart : "inline; filename=\"".toList.all isHeaderChar = true := by
    decide +kernel
  have hend : "\"".toList.all isHeaderChar = true := by
    decide +kernel
  have hvalue : (contentDisposition key).toList =
      "inline; filename=\"".toList ++ (basename key).toList ++ "\"".toList := by
    rw [← @String.toList_append "inline; filename=\"" (basename key)]
    exact String.toList_append
  rw [hvalue, List.all_append, List.all_append, hstart, hend, Bool.true_and, Bool.and_true,
    List.all_eq_true, Headed]

/-- Assumes: storage has the file, and the request is admitted. The answer is the file exactly when
its name may stand in a header. -/
theorem exchange_iff {request : Request} {later : ClockReading} (hsplat : request.splat.key = key)
    (hpath : pathFor deps.root key = .ok path)
    (hstored : tree.lookup path = some (.file bytes mtimeMs))
    (hadmitted : answeredEarly hmac deps.toDeps later request = none) :
    (∃ contentType disposition, exchange hmac deps.toDeps later request (fun _ ↦ []) tree =
      .ok (.answered (.file contentType bytes.length disposition bytes))) ↔ Headed key := by
  have hfirst : (sweptTree (fun _ ↦ []) tree 1).lookup path = some (.file bytes mtimeMs) := hstored
  have hexchange : exchange hmac deps.toDeps later request (fun _ ↦ []) tree =
      .ok (delivered key bytes.length (absence tree path) (some (.file bytes mtimeMs))) := by
    rw [exchange_of_admitted hadmitted, hsplat, run_serve_of_present hpath hfirst, sweptTree_nil,
      sweptTree_nil, sweptTree_nil, hstored]
    rfl
  rw [hexchange, ← all_contentDisposition_iff, delivered]
  split_ifs with hheader
  · exact iff_of_true ⟨_, _, rfl⟩ hheader
  · refine iff_of_false ?_ hheader
    rintro ⟨contentType, disposition, hanswer⟩
    cases hanswer

/-- A character of a query that an address leaves as it is. -/
def IsPlain (c : Char) : Prop := c ≠ '#' ∧ 0x20 < c.toNat ∧ WebUrl.inSpecialQuerySet c = false

instance : DecidablePred IsPlain := fun _ ↦ inferInstanceAs (Decidable (_ ∧ _ ∧ _))

theorem isPlain_of_isDigit {c : Char} (h : c.isDigit = true) : IsPlain c := by
  have hrange : 48 ≤ c.toNat ∧ c.toNat ≤ 57 := Char.isDigit_iff_toNat.mp h
  refine ⟨?_, by omega, ?_⟩
  · rintro rfl
    exact absurd h (by decide)
  · simp only [WebUrl.inSpecialQuerySet, WebUrl.inQuerySet, List.contains_eq_mem, List.mem_cons,
      List.not_mem_nil, Bool.or_eq_false_iff, decide_eq_false_iff_not, or_false]
    omega

theorem toList_signedQuery (link : SignedLink) :
    (signedQuery link).toList = "expires=".toList ++ (toText link.expires).toList ++
      "&signature=".toList ++ link.signature.toList := by
  rw [signedQuery, @String.toList_append _ link.signature, @String.toList_append _ "&signature=",
    @String.toList_append "expires="]

/-- The query of a signed link is plain. -/
theorem isPlain_signedQuery (now : ClockReading) :
    ∀ c ∈ (signedQuery (linkFor hmac deps now key)).toList, IsPlain c := by
  have hexpires : ∀ c ∈ (toText (linkFor hmac deps now key).expires).toList, IsPlain c := by
    intro c hc
    rw [toText, String.toList_ofList] at hc
    rcases isNumberChar_toChars _ c hc with hdigit | hother
    · exact isPlain_of_isDigit hdigit
    · exact EcmaText.forall_mem_of_all (by decide) c hother
  have hsignature : ∀ c ∈ (linkFor hmac deps now key).signature.toList, IsPlain c := by
    intro c hc
    rcases hmac.hex _ _ c hc with hdigit | hletter
    · exact isPlain_of_isDigit hdigit
    · exact EcmaText.forall_mem_of_all (by decide) c hletter
  intro c hc
  rw [toList_signedQuery] at hc
  rcases List.mem_append.mp hc with hc | hc
  · rcases List.mem_append.mp hc with hc | hc
    · rcases List.mem_append.mp hc with hc | hc
      · have hfixed : ∀ d ∈ "expires=".toList, IsPlain d :=
          EcmaText.forall_mem_of_all (by decide +kernel)
        exact hfixed c hc
      · exact hexpires c hc
    · have hfixed : ∀ d ∈ "&signature=".toList, IsPlain d :=
        EcmaText.forall_mem_of_all (by decide +kernel)
      exact hfixed c hc
  · exact hsignature c hc

/-- A request with the key and the query of a link is admitted before the link expires. -/
theorem answeredEarly_eq_none (hne : key ≠ "") {request : Request} {now later : ClockReading}
    (hsplat : request.splat.key = key)
    (hquery : deps.downloadSecret ≠ "" →
      request.query = parse (signedQuery (linkFor hmac deps now key)))
    (hlater : deps.downloadSecret ≠ "" →
      later.ms / 1000 ≤ now.ms / 1000 + deps.downloadTtlSeconds) :
    answeredEarly hmac deps.toDeps later request = none := by
  rw [answeredEarly, hsplat, if_neg hne, signatureGate]
  split_ifs with hsecret
  · rfl
  · have haccepted := verifySignedLink_createSignedLink hmac key deps.downloadSecret deps.safe
      now later
    rw [if_pos (hlater hsecret)] at haccepted
    rw [hsplat, hquery hsecret, linkFor, haccepted]

/-- The query of a link is a tail. -/
theorem isTail_linkTail (now : ClockReading) : IsTail (linkTail hmac deps now key) := by
  unfold linkTail
  split_ifs
  · exact .none
  · exact .query fun hmem ↦ (isPlain_signedQuery now '#' hmem).1 rfl

/-- The client sends the query as it is. -/
theorem sentQuery_linkTail (hsecret : deps.downloadSecret ≠ "") (now : ClockReading) :
    sentQuery (linkTail hmac deps now key) = (signedQuery (linkFor hmac deps now key)).toList := by
  rw [sentQuery, linkTail, if_neg hsecret]
  exact WebUrl.percentEncode_eq_self fun c hc ↦ (isPlain_signedQuery now c hc).2.2

/-- A request with the query of a link carries its expiry and its signature. -/
theorem carries_of_query {request : Request} {now : ClockReading}
    (h : request.query = parse (signedQuery (linkFor hmac deps now key))) :
    Carries request (linkFor hmac deps now key) := by
  rw [Carries, h, linkFor]
  exact text_parse_createSignedLink hmac key deps.downloadSecret deps.safe now

/-- Assumes: a literal key. The route gets the key, and the query of its link. -/
theorem exists_route_of_literal (hliteral : Literal key) (hne : key ≠ "")
    (hkey : '?' ∉ key.toList) (now : ClockReading) :
    ∃ request, route (WebUrl.targetOf (afterSlash key.toList (linkTail hmac deps now key))) =
        some request ∧ request.splat.key = key ∧
      (deps.downloadSecret ≠ "" →
        request.query = parse (signedQuery (linkFor hmac deps now key))) := by
  refine ⟨_, route_of_literal hliteral hne hkey (isTail_linkTail now), ?_, fun hsecret ↦ ?_⟩
  · apply String.toList_injective
    rw [splitSlash, toList_key, List.intercalate_splitOn]
  · rw [sentQuery_linkTail hsecret, String.ofList_toList]

/-- Assumes: a key without control characters that does not end with a space. The client makes
nothing else of the url. -/
theorem resolve_link {start : List Char} {last : Char} (hkey : key.toList = start ++ [last])
    (hlast : 0x20 < last.toNat) (hcontrol : ∀ c ∈ key.toList, 0x20 ≤ c.toNat)
    (now : ClockReading) :
    WebUrl.resolve ('/' :: afterSlash key.toList (linkTail hmac deps now key)) =
      some (WebUrl.targetOf (afterSlash key.toList (linkTail hmac deps now key))) := by
  have hplain : ∀ c ∈ linkTail hmac deps now key, 0x20 < c.toNat := by
    unfold linkTail
    split_ifs
    · exact fun _ hc ↦ absurd hc List.not_mem_nil
    · intro c hc
      rcases List.mem_cons.mp hc with rfl | hc
      · decide
      · exact (isPlain_signedQuery now c hc).2.1
  have hend : ∃ before final, afterSlash key.toList (linkTail hmac deps now key) =
      before ++ [final] ∧ 0x20 < final.toNat := by
    rcases List.eq_nil_or_concat (linkTail hmac deps now key) with hnil | ⟨before, final, hfinal⟩
    · rw [hnil, afterSlash, List.append_nil, hkey, ← List.append_assoc]
      exact ⟨_, last, rfl, hlast⟩
    · rw [List.concat_eq_append] at hfinal
      have hmem : final ∈ linkTail hmac deps now key := by
        rw [hfinal]
        exact List.mem_append_right before List.mem_cons_self
      rw [afterSlash, hfinal, ← List.append_assoc]
      exact ⟨_, final, rfl, hplain final hmem⟩
  obtain ⟨before, final, hbefore, hfinal⟩ := hend
  have hcontrols : ∀ c ∈ afterSlash key.toList (linkTail hmac deps now key), 0x20 ≤ c.toNat := by
    intro c hc
    rcases List.mem_append.mp hc with hstart | htail
    · rcases List.mem_append.mp hstart with hfixed | hkeyed
      · exact (forall_mem_files c hfixed).2.2
      · exact hcontrol c hkeyed
    · exact (hplain c htail).le
  have hfirst : (afterSlash key.toList (linkTail hmac deps now key)).head?.any WebUrl.isSlash =
      false := rfl
  rw [hbefore] at hcontrols hfirst ⊢
  exact WebUrl.resolve_eq hcontrols hfinal hfirst

end Answers

/-! ### The links of produced files -/

/-- What a key has to be for its link to lead to the file. -/
def Fetchable (key : String) : Prop := Literal key ∧ Headed key

/-- Assumes: a stored file under a key without control characters and question marks that does not
end with a space, and a request before the link expires. -/
theorem fetched_key_iff (hmac : Hmac) (deps : LinkDeps) {key : String} {start : List Char}
    {last : Char} (hkey : key.toList = start ++ [last]) (hlast : 0x20 < last.toNat)
    (hchars : ∀ c ∈ key.toList, 0x20 ≤ c.toNat ∧ c ≠ '?') {path : AbsolutePath} {bytes : Bytes}
    {mtimeMs : ℚ} {tree : Tree} (hpath : pathFor deps.root key = .ok path)
    (hstored : tree.lookup path = some (.file bytes mtimeMs)) {now later : ClockReading}
    (hlater : deps.downloadSecret ≠ "" →
      later.ms / 1000 ≤ now.ms / 1000 + deps.downloadTtlSeconds) :
    Fetched hmac deps now later key bytes tree ↔ Fetchable key ∧ Dated deps now := by
  have hne : key ≠ "" := by
    rintro rfl
    exact absurd hkey (by simp)
  have hquestion : '?' ∉ key.toList := fun hmem ↦ (hchars _ hmem).2 rfl
  have hcontrol : ∀ c ∈ key.toList, 0x20 ≤ c.toNat := fun c hc ↦ (hchars c hc).1
  have hresolve := @resolve_link hmac deps key start last hkey hlast hcontrol now
  constructor
  · rintro ⟨url, signed, expiresAt, target, request, contentType, disposition, hanswer, htarget,
      hroute, hsplat, -, hfile⟩
    rw [run_postLink hne hpath hstored] at hanswer
    have hmint := Except.ok.inj hanswer
    rw [toList_url_of_mint hmint, hresolve] at htarget
    rw [← Option.some.inj htarget] at hroute
    refine ⟨⟨literal_of_route hquestion (isTail_linkTail now) hroute hsplat, ?_⟩,
      (exists_mint_iff now).mp ⟨url, signed, expiresAt, hmint⟩⟩
    cases hearly : answeredEarly hmac deps.toDeps later request with
    | none => exact (exchange_iff hsplat hpath hstored hearly).mp ⟨contentType, disposition, hfile⟩
    | some response =>
      -- a request that is answered early is refused
      have hstatus := (answeredEarly_status hearly).1
      rw [exchange, getFile, hearly] at hfile
      cases hfile
      have hok : (Response.file contentType bytes.length disposition bytes).status = 200 := rfl
      omega
  · rintro ⟨⟨hliteral, hheaded⟩, hdated⟩
    obtain ⟨url, signed, expiresAt, hmint⟩ := (@exists_mint_iff hmac deps key now).mpr hdated
    obtain ⟨request, hroute, hsplat, hquery⟩ :=
      @exists_route_of_literal hmac deps key hliteral hne hquestion now
    have hadmitted := answeredEarly_eq_none hne hsplat hquery hlater
    obtain ⟨contentType, disposition, hfile⟩ :=
      (exchange_iff hsplat hpath hstored hadmitted).mpr hheaded
    refine ⟨url, signed, expiresAt, _, request, contentType, disposition, ?_, ?_, hroute, hsplat,
      fun hsecret ↦ carries_of_query (hquery hsecret), hfile⟩
    · rw [run_postLink hne hpath hstored, hmint]
    · rw [toList_url_of_mint hmint, hresolve]

theorem producedKey_chars (uploaded : String) (product : Product) (id : IdStart) :
    ∀ c ∈ (producedKey uploaded product id).toList, 0x20 ≤ c.toNat ∧ c ≠ '?' := by
  intro c hc
  obtain ⟨hcontrol, hreserved⟩ := mem_producedKey hc
  simp only [Upload.isControl, Bool.or_eq_false_iff, decide_eq_false_iff_not] at hcontrol
  refine ⟨by omega, ?_⟩
  rintro rfl
  exact absurd hreserved (by decide)

/-- The link to a produced file leads to it exactly when nothing in the key means something in an
address, its last component may stand in a header, and, when signing is on, the link expires at a
valid date. Assumes: the file is stored under its key, and the request comes before the link
expires. -/
theorem fetched_iff (hmac : Hmac) (deps : LinkDeps) (uploaded : String) (product : Product)
    (id : IdStart) {path : AbsolutePath} {bytes : Bytes} {mtimeMs : ℚ} {tree : Tree}
    (hpath : pathFor deps.root (producedKey uploaded product id) = .ok path)
    (hstored : tree.lookup path = some (.file bytes mtimeMs)) {now later : ClockReading}
    (hlater : deps.downloadSecret ≠ "" →
      later.ms / 1000 ≤ now.ms / 1000 + deps.downloadTtlSeconds) :
    Fetched hmac deps now later (producedKey uploaded product id) bytes tree ↔
      Fetchable (producedKey uploaded product id) ∧ Dated deps now := by
  obtain ⟨start, last, hkey, hlast⟩ := exists_producedKey_eq uploaded product id
  exact fetched_key_iff hmac deps hkey hlast (producedKey_chars uploaded product id) hpath hstored
    hlater

/-- A storage with one report. -/
def reportStorage (path : AbsolutePath) : Tree := (∅ : Tree).insert path (.file [0x7B, 0x7D] 0)

def someId : IdStart := ⟨"0a1b2c3d", EcmaText.forall_mem_of_all (by decide), by decide⟩

/-- `/data/storage/outputs/Q3 café-report-0a1b2c3d.json` -/
def cafePath : AbsolutePath :=
  ⟨["data", "storage", "outputs", "Q3 café-report-0a1b2c3d.json"], by decide⟩

/-- The link to a report whose name has a space and a letter of Latin-1, in its last millisecond. -/
theorem fetched_cafe :
    Fetched .recorded ⟨⟨dataStorage, "a-test-secret"⟩, 900, by decide⟩ ⟨1700000000000, by decide⟩
      ⟨1700000900999, by decide⟩ (producedKey "Q3 café.csv" .report someId) [0x7B, 0x7D]
      (reportStorage cafePath) := by
  have hpath : pathFor dataStorage (producedKey "Q3 café.csv" .report someId) = .ok cafePath := by
    decide +kernel
  have hstored : (reportStorage cafePath).lookup cafePath = some (.file [0x7B, 0x7D] 0) := by
    decide +kernel
  have hliteral : Literal (producedKey "Q3 café.csv" .report someId) :=
    ⟨by decide +kernel, by decide +kernel, EcmaText.forall_mem_of_all (by decide +kernel),
      by decide +kernel⟩
  have hheaded : ∀ c ∈ (basename (producedKey "Q3 café.csv" .report someId)).toList,
      isHeaderChar c = true :=
    EcmaText.forall_mem_of_all (by decide +kernel)
  apply (fetched_iff .recorded ⟨⟨dataStorage, "a-test-secret"⟩, 900, by decide⟩ "Q3 café.csv"
    .report someId hpath hstored fun _ ↦ by decide).mpr
  exact ⟨⟨hliteral, hheaded⟩, Or.inr (by decide)⟩

/-- `/data/storage/outputs/report#1-report-0a1b2c3d.json` -/
def numberedPath : AbsolutePath :=
  ⟨["data", "storage", "outputs", "report#1-report-0a1b2c3d.json"], by decide⟩

/-- Not every link leads to its file: the report on `report#1.csv` is asked for as
`/files/outputs/report`. -/
theorem not_fetched_numbered :
    ¬ ∀ (hmac : Hmac) (deps : LinkDeps) (uploaded : String) (product : Product) (id : IdStart)
      (path : AbsolutePath) (bytes : Bytes) (mtimeMs : ℚ) (tree : Tree),
      pathFor deps.root (producedKey uploaded product id) = .ok path →
      tree.lookup path = some (.file bytes mtimeMs) → ∀ now later : ClockReading,
      (deps.downloadSecret ≠ "" →
        later.ms / 1000 ≤ now.ms / 1000 + deps.downloadTtlSeconds) →
      Fetched hmac deps now later (producedKey uploaded product id) bytes tree := by
  intro h
  have hpath : pathFor dataStorage (producedKey "report#1.csv" .report someId) =
      .ok numberedPath := by
    decide +kernel
  have hstored : (reportStorage numberedPath).lookup numberedPath =
      some (.file [0x7B, 0x7D] 0) := by
    decide +kernel
  have hfetched := h .recorded ⟨⟨dataStorage, ""⟩, 900, by decide⟩ "report#1.csv" .report someId
    numberedPath [0x7B, 0x7D] 0 (reportStorage numberedPath) hpath hstored ⟨0, by decide⟩
    ⟨0, by decide⟩ fun hsecret ↦ absurd rfl hsecret
  obtain ⟨start, last, hkey, hlast⟩ := exists_producedKey_eq "report#1.csv" .report someId
  have hfetchable := (fetched_key_iff .recorded ⟨⟨dataStorage, ""⟩, 900, by decide⟩ hkey hlast
    (producedKey_chars "report#1.csv" .report someId) hpath hstored
    fun hsecret ↦ absurd rfl hsecret).mp hfetched
  have hhash : '#' ∈ (producedKey "report#1.csv" .report someId).toList := by
    decide +kernel
  exact hfetchable.1.1.hash hhash

end FileForge.Files.Links
