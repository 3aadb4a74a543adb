import FileForge.Frontend.Api
import FileForge.Frontend.App

/-!
# The result

`ResultCard` of `frontend/src/components/ResultCard.tsx` on the page. The effect of the card runs
for every new array of keys and asks for one link each; the links arrive in any order, and those of
an array that was replaced meanwhile may arrive after it. An effect that has been cleaned up does
not show what it has waited for.

The card never clears its links itself when one result follows another: it rests on the page, which
shows no outputs in between. `links_are_current` is about both together, in every run in which only
the event that ends a job carries outputs, as the server sends them: the links on the screen are
those of the outputs of the job that is shown, all of them in their order, each with the url that
was sent for its key.
-/

set_option autoImplicit false
set_option relaxedAutoImplicit false

namespace FileForge.Frontend.ResultCard

open Foundation.Execution Foundation.Execution.System
open Shared.Contract
open Frontend.Api (ClientError LinkReply)

/-! ### The card -/

/-- The extensions of `isPreviewable`. -/
def previewable : List String := [".png", ".jpg", ".jpeg", ".webp", ".avif", ".gif"]

/-- Without the `u` flag only ASCII letters match in either case. -/
def isPreviewable (key : String) : Bool :=
  previewable.any fun extension ↦ extension.toList <:+ key.toList.map Char.toLower

structure ResolvedOutput where
  key : String
  url : String
  previewable : Bool
  deriving DecidableEq, Repr

/-- What `getDownloadUrl` comes to for a key, when it is there. -/
structure Asked where
  key : String
  reply : Option (Except ClientError LinkReply) := none

def Asked.link : Asked → Option ResolvedOutput
  | { key, reply := some (.ok reply) } =>
    some { key := key, url := reply.url, previewable := isPreviewable key }
  | _ => none

def Asked.failed : Asked → Bool
  | { reply := some (.error _), .. } => true
  | _ => false

/-- A call of `resolveAll`, with the flag of its effect. -/
structure Resolution where
  asked : List Asked
  cancelled : Bool := false

def ask (outputs : List String) : Resolution := { asked := outputs.map fun key ↦ { key := key } }

def Resolution.outputs (resolution : Resolution) : List String := resolution.asked.map Asked.key

/-- The links, when all are there. -/
def Resolution.links (resolution : Resolution) : Option (List ResolvedOutput) :=
  resolution.asked.mapM Asked.link

/-- `Promise.all` has been rejected. -/
def Resolution.failed (resolution : Resolution) : Bool := resolution.asked.any Asked.failed

/-- A call after one more reply. -/
def Resolution.answer (resolution : Resolution) (position : ℕ) (key : String)
    (reply : Except ClientError LinkReply) : Resolution :=
  { resolution with asked := resolution.asked.set position { key := key, reply := some reply } }

structure Card where
  /-- The array that was rendered last. -/
  outputs : List String := []
  resolved : List ResolvedOutput := []
  error : Option String := none
  /-- The effect has not run for the array. -/
  due : Bool := true
  /-- The calls of `resolveAll`, the last one at the end. -/
  resolutions : List Resolution := []
  /-- The call whose effect has a cleanup that has not run. -/
  current : Option ℕ := none

/-- The cleanup of the last effect. -/
def Card.cleanup (card : Card) : Card :=
  match card.current with
  | some index => { card with
      resolutions := card.resolutions.modify index fun resolution ↦
        { resolution with cancelled := true }
      current := none }
  | none => card

/-- The effect, when there is a new array. -/
def Card.flush (card : Card) : Card :=
  if card.due then
    let cleaned := card.cleanup
    if card.outputs = [] then { cleaned with resolved := [], due := false }
    else { cleaned with
      resolutions := cleaned.resolutions ++ [ask card.outputs], due := false
      current := some cleaned.resolutions.length }
  else card

/-- A new array is rendered, after the effect of the last one. -/
def Card.render (card : Card) (outputs : List String) : Card :=
  { card.flush with outputs := outputs, due := true }

def linkFailed : String := "Could not prepare the download link"

/-- `resolveAll` goes on, when a reply has settled it. -/
def Card.settle (card : Card) (resolution : Resolution) : Card :=
  if resolution.cancelled then card
  else if resolution.failed then { card with error := some linkFailed }
  else match resolution.links with
    | some links => { card with resolved := links, error := none }
    | none => card

/-- A reply of `getDownloadUrl`. A call that was rejected takes no notice of further ones. -/
def Card.onReply (card : Card) (index : ℕ) (resolution : Resolution) (position : ℕ) (key : String)
    (reply : Except ClientError LinkReply) : Card :=
  let answered := resolution.answer position key reply
  let told := { card with resolutions := card.resolutions.set index answered }
  if resolution.failed then told else told.settle answered

/-- The links on the screen. -/
def Card.shown (card : Card) : List ResolvedOutput :=
  if card.outputs = [] then [] else card.resolved

/-! ### The card on the page -/

structure State where
  app : App.State := {}
  card : Card := {}

inductive Action
  | app (action : App.Action)
  /-- The effect of the card runs. -/
  | effect
  /-- The link for the key at a position of a call of `resolveAll`. -/
  | reply (index position : ℕ) (reply : Except ClientError LinkReply)

/-- `progress.outputs` is another array after the action: a message brings one, and so does the
effect of the hook for another job. -/
def Replaces (before after : App.State) : App.Action → Prop
  | .message _ => True
  | _ => after.watched ≠ before.watched

instance (before after : App.State) : DecidablePred (Replaces before after)
  | .message _ => .isTrue trivial
  | .choose | .uploaded _ | .run _ | .created _ _ | .lost | .effect =>
    inferInstanceAs (Decidable (after.watched ≠ before.watched))

/-- The page renders the card after its own step. -/
def State.rendered (state : State) (after : App.State) (action : App.Action) : State where
  app := after
  card := if Replaces state.app after action then state.card.render after.progress.outputs
    else state.card

def step (state : State) : Action → Option State
  | .app action => (App.step state.app action).map fun after ↦ state.rendered after action
  | .effect => some { state with card := state.card.flush }
  | .reply index position reply => do
    let resolution ← state.card.resolutions[index]?
    let asked ← resolution.asked[position]?
    if asked.reply.isNone then
      return { state with card := state.card.onReply index resolution position asked.key reply }
    else none

def screen : System State Action where
  start := {}
  step := step

/-- Only the event that ends a job carries outputs. -/
def Final : App.Action → Prop
  | .message event => App.outputsFrom event.result = [] ∨ event.state.Terminal
  | _ => True

/-- What the server sends in a run. -/
def Ordered (_state : State) : Action → Prop
  | .app action => Final action
  | _ => True

/-- The steps of the page that fit, as `App.Fits` says. -/
def Fits (state : State) : Action → Prop
  | .app action => App.Fits state.app action
  | _ => True

/-! ### Links -/

section Traverse

variable {α β : Type} {f : α → Option β} {elements : List α}

theorem getElem?_of_mapM {results : List β} (h : elements.mapM f = some results) (position : ℕ) :
    results[position]? = elements[position]?.bind f := by
  induction elements generalizing results position with
  | nil =>
    obtain rfl : [] = results := Option.some.inj h
    simp
  | cons element rest ih =>
    rw [List.mapM_cons] at h
    obtain ⟨result, hresult, others, hothers, rfl⟩ : ∃ result, f element = some result ∧
        ∃ others, rest.mapM f = some others ∧ result :: others = results := by
      simpa [Option.bind_eq_some_iff] using h
    cases position with
    | zero => simp [hresult]
    | succ position => simpa using ih hothers position

theorem mapM_eq_none_iff : elements.mapM f = none ↔ ∃ element ∈ elements, f element = none := by
  induction elements with
  | nil => exact iff_of_false (Option.some_ne_none _) (by simp)
  | cons element rest ih =>
    rw [List.mapM_cons, List.exists_mem_cons_iff, ← ih]
    cases f element with
    | none => simp
    | some result => cases rest.mapM f <;> simp

end Traverse

theorem Asked.link_eq_some_iff {asked : Asked} {link : ResolvedOutput} :
    asked.link = some link ↔ ∃ reply, asked.reply = some (.ok reply) ∧
      { key := asked.key, url := reply.url, previewable := isPreviewable asked.key } = link := by
  rcases asked with ⟨key, _ | error | reply⟩ <;> simp [Asked.link]

namespace Resolution

variable {resolution : Resolution} {position : ℕ} {asked : Asked}

@[simp] theorem outputs_ask (outputs : List String) : (ask outputs).outputs = outputs := by
  rw [Resolution.outputs, ask, List.map_map]
  exact List.map_id _

/-- A call that waits for a link has none to show. -/
theorem links_of_open (hasked : resolution.asked[position]? = some asked)
    (hopen : asked.reply = none) : resolution.links = none := by
  refine mapM_eq_none_iff.mpr ⟨asked, List.mem_of_getElem? hasked, ?_⟩
  cases asked
  cases hopen
  rfl

/-- A call that was rejected has none to show. -/
theorem links_of_failed (h : resolution.failed = true) : resolution.links = none := by
  obtain ⟨asked, hmem, hfailed⟩ := List.any_eq_true.mp h
  refine mapM_eq_none_iff.mpr ⟨asked, hmem, ?_⟩
  rcases asked with ⟨key, _ | error | reply⟩
  · cases hfailed
  · rfl
  · cases hfailed

/-- The links are for the keys that were asked for, in their order. -/
theorem keys_of_links {links : List ResolvedOutput} (h : resolution.links = some links) :
    links.map ResolvedOutput.key = resolution.outputs := by
  refine List.ext_getElem? fun position ↦ ?_
  rw [Resolution.outputs, List.getElem?_map, List.getElem?_map, getElem?_of_mapM h]
  cases hasked : resolution.asked[position]? with
  | none => rfl
  | some asked =>
    cases hlink : asked.link with
    | none =>
      have hnone := mapM_eq_none_iff.mpr ⟨asked, List.mem_of_getElem? hasked, hlink⟩
      rw [show resolution.asked.mapM Asked.link = some links from h] at hnone
      cases hnone
    | some link =>
      obtain ⟨reply, -, rfl⟩ := Asked.link_eq_some_iff.mp hlink
      rw [Option.bind_some, hlink, Option.map_some, Option.map_some]

theorem links_ask {outputs : List String} (h : outputs ≠ []) : (ask outputs).links = none := by
  obtain ⟨key, rest, rfl⟩ := List.exists_cons_of_ne_nil h
  have hfirst : (ask (key :: rest)).asked[0]? = some { key := key } := rfl
  exact links_of_open hfirst rfl

theorem failed_ask (outputs : List String) : (ask outputs).failed = false := by
  refine List.any_eq_false.mpr fun asked hasked ↦ ?_
  obtain ⟨key, -, rfl⟩ := List.mem_map.mp hasked
  exact Bool.false_ne_true

theorem outputs_answer (hasked : resolution.asked[position]? = some asked)
    (reply : Except ClientError LinkReply) :
    (resolution.answer position asked.key reply).outputs = resolution.outputs := by
  rw [Resolution.outputs, answer, List.map_set]
  refine List.ext_getElem? fun other ↦ ?_
  rw [List.getElem?_set]
  split_ifs with hsame hlt
  · subst hsame
    rw [Resolution.outputs, List.getElem?_map, hasked, Option.map_some]
  · rw [Resolution.outputs, eq_comm, List.getElem?_eq_none_iff]
    exact hsame ▸ not_lt.mp hlt
  · rfl

theorem failed_answer (hasked : resolution.asked[position]? = some asked)
    (hopen : asked.reply = none) (reply : Except ClientError LinkReply) :
    (resolution.answer position asked.key reply).failed = true ↔
      resolution.failed = true ∨ ∃ error, reply = .error error := by
  have hlt := (List.getElem?_eq_some_iff.mp hasked).1
  simp only [failed, answer, List.any_eq_true]
  constructor
  · rintro ⟨found, hfound, hfailed⟩
    rcases List.mem_or_eq_of_mem_set hfound with hold | rfl
    · exact Or.inl ⟨found, hold, hfailed⟩
    · cases reply with
      | error error => exact Or.inr ⟨error, rfl⟩
      | ok reply => cases hfailed
  · rintro (⟨found, hfound, hfailed⟩ | ⟨error, rfl⟩)
    · refine ⟨found, ?_, hfailed⟩
      obtain ⟨other, hother⟩ := List.mem_iff_getElem?.mp hfound
      have hne : position ≠ other := by
        rintro rfl
        obtain rfl : asked = found := Option.some.inj (hasked.symm.trans hother)
        rcases asked with ⟨key, reply⟩
        cases hopen
        cases hfailed
      exact List.mem_iff_getElem?.mpr ⟨other, by rw [List.getElem?_set_ne hne, hother]⟩
    · exact ⟨_, List.mem_set hlt _, rfl⟩

end Resolution

/-! ### The card alone -/

/-- The card shows how far the call for its array has come. -/
def Card.Tells (card : Card) : Prop :=
  ∃ index resolution, card.current = some index ∧ card.resolutions[index]? = some resolution ∧
    resolution.cancelled = false ∧ resolution.outputs = card.outputs ∧
    card.resolved = resolution.links.getD [] ∧
    (resolution.links ≠ none → card.error = none) ∧
    (resolution.failed = true → card.error = some linkFailed)

/-- The card has nothing to show and waits for nothing. -/
def Card.Blank (card : Card) : Prop := card.current = none ∧ card.resolved = []

structure Coherent (card : Card) : Prop where
  live : ∀ index resolution, card.resolutions[index]? = some resolution →
    resolution.cancelled = false → card.current = some index
  empty : card.due = false → card.outputs = [] → card.Blank
  fresh : card.due = true → card.outputs ≠ [] → card.Blank
  tells : card.due = false → card.outputs ≠ [] → card.Tells

theorem coherent_start : Coherent screen.start.card where
  live := fun _ _ hresolution ↦ by cases hresolution
  empty := fun _ _ ↦ ⟨rfl, rfl⟩
  fresh := fun _ _ ↦ ⟨rfl, rfl⟩
  tells := fun _ hne ↦ absurd rfl hne

section Effect

variable {card : Card}

@[simp] theorem cleanup_current : card.cleanup.current = none := by
  unfold Card.cleanup
  split
  · rfl
  · assumption

@[simp] theorem cleanup_outputs : card.cleanup.outputs = card.outputs := by
  unfold Card.cleanup
  split <;> rfl

@[simp] theorem cleanup_resolved : card.cleanup.resolved = card.resolved := by
  unfold Card.cleanup
  split <;> rfl

/-- No call is left that would show its links. -/
theorem Coherent.cancelled (h : Coherent card) {index : ℕ} {resolution : Resolution}
    (hresolution : card.cleanup.resolutions[index]? = some resolution) :
    resolution.cancelled = true := by
  by_contra hlive
  rw [Bool.not_eq_true] at hlive
  unfold Card.cleanup at hresolution
  split at hresolution
  · rename_i current hcurrent
    rw [List.getElem?_modify] at hresolution
    obtain ⟨before, hbefore, hafter⟩ := Option.map_eq_some_iff.mp hresolution
    split_ifs at hafter with hsame
    · rw [← hafter] at hlive
      cases hlive
    · rw [← show before = resolution from hafter] at hlive
      have hindex := h.live index before hbefore hlive
      exact hsame (Option.some.inj (hcurrent.symm.trans hindex))
  · rename_i hcurrent
    rw [h.live index resolution hresolution hlive] at hcurrent
    cases hcurrent

theorem Coherent.flush (h : Coherent card) : Coherent card.flush := by
  unfold Card.flush
  split_ifs with hdue houtputs
  · refine ⟨fun index resolution hresolution hlive ↦ ?_, fun _ _ ↦ ⟨cleanup_current, rfl⟩, nofun,
      fun _ hne ↦ absurd (show card.cleanup.outputs = [] by rw [cleanup_outputs, houtputs]) hne⟩
    rw [h.cancelled hresolution] at hlive
    cases hlive
  · have hlast : (card.cleanup.resolutions ++ [ask card.outputs])[card.cleanup.resolutions.length]? =
        some (ask card.outputs) := List.getElem?_concat_length
    refine ⟨fun index resolution hresolution hlive ↦ ?_, fun _ hempty ↦ ?_, nofun, fun _ _ ↦ ?_⟩
    · rw [List.getElem?_append] at hresolution
      split_ifs at hresolution with hlt
      · rw [h.cancelled hresolution] at hlive
        cases hlive
      · rw [List.getElem?_singleton] at hresolution
        split_ifs at hresolution with hzero
        exact congrArg some (by omega)
    · exact absurd (cleanup_outputs.symm.trans hempty) houtputs
    · refine ⟨_, _, rfl, hlast, rfl, ?_, ?_, ?_, ?_⟩
      · rw [Resolution.outputs_ask]
        exact cleanup_outputs.symm
      · rw [Resolution.links_ask houtputs]
        exact cleanup_resolved.trans (h.fresh hdue houtputs).2
      · exact fun hlinks ↦ absurd (Resolution.links_ask houtputs) hlinks
      · rw [Resolution.failed_ask]
        exact nofun
  · exact h

theorem flush_outputs : card.flush.outputs = card.outputs := by
  unfold Card.flush
  split_ifs
  · exact cleanup_outputs
  · exact cleanup_outputs
  · rfl

theorem flush_due : card.flush.due = false := by
  unfold Card.flush
  split_ifs with hdue
  · rfl
  · rfl
  · exact Bool.not_eq_true _ ▸ hdue

/-- A new array, when one of the two is empty. -/
theorem Coherent.render (h : Coherent card) {outputs : List String}
    (hbetween : outputs = [] ∨ card.outputs = []) : Coherent (card.render outputs) where
  live := h.flush.live
  empty := nofun
  fresh := fun _ hne ↦ h.flush.empty flush_due (flush_outputs.trans (hbetween.resolve_left hne))
  tells := nofun

end Effect

section Reply

variable {card : Card} {index : ℕ} {resolution : Resolution}

theorem settle_fields (card : Card) (resolution : Resolution) :
    (card.settle resolution).outputs = card.outputs ∧ (card.settle resolution).due = card.due ∧
      (card.settle resolution).resolutions = card.resolutions ∧
      (card.settle resolution).current = card.current := by
  unfold Card.settle
  split_ifs
  · exact ⟨rfl, rfl, rfl, rfl⟩
  · exact ⟨rfl, rfl, rfl, rfl⟩
  · split <;> exact ⟨rfl, rfl, rfl, rfl⟩

/-- What a reply leaves alone. -/
theorem onReply_fields (card : Card) (index : ℕ) (resolution : Resolution) (position : ℕ)
    (key : String) (reply : Except ClientError LinkReply) :
    (card.onReply index resolution position key reply).outputs = card.outputs ∧
      (card.onReply index resolution position key reply).due = card.due ∧
      (card.onReply index resolution position key reply).resolutions =
        card.resolutions.set index (resolution.answer position key reply) ∧
      (card.onReply index resolution position key reply).current = card.current := by
  unfold Card.onReply
  dsimp only
  split_ifs
  · exact ⟨rfl, rfl, rfl, rfl⟩
  · exact settle_fields _ _

/-- A call whose effect has been cleaned up shows nothing. -/
theorem onReply_of_cancelled (card : Card) (index : ℕ) (hcancelled : resolution.cancelled = true)
    (position : ℕ)
    (key : String) (reply : Except ClientError LinkReply) :
    card.onReply index resolution position key reply =
      { card with
        resolutions := card.resolutions.set index (resolution.answer position key reply) } := by
  unfold Card.onReply
  dsimp only
  split_ifs
  · rfl
  · exact if_pos hcancelled

variable {position : ℕ} {asked : Asked}

/-- The call of the array that is rendered gets a reply. -/
theorem Card.Tells.onReply (h : card.Tells) (hcurrent : card.current = some index)
    (hresolution : card.resolutions[index]? = some resolution)
    (hasked : resolution.asked[position]? = some asked) (hopen : asked.reply = none)
    (reply : Except ClientError LinkReply) :
    (card.onReply index resolution position asked.key reply).Tells := by
  obtain ⟨found, before, hfound, hbefore, hlive, houtputs, hresolved, hloaded, hfailed⟩ := h
  obtain rfl : found = index := Option.some.inj (hfound.symm.trans hcurrent)
  obtain rfl : before = resolution := Option.some.inj (hbefore.symm.trans hresolution)
  obtain ⟨hsameOutputs, -, hresolutions, hsameCurrent⟩ :=
    onReply_fields card found before position asked.key reply
  have hlt := (List.getElem?_eq_some_iff.mp hbefore).1
  refine ⟨found, before.answer position asked.key reply, hsameCurrent.trans hfound, ?_, hlive, ?_,
    ?_⟩
  · rw [hresolutions, List.getElem?_set_self hlt]
  · rw [Resolution.outputs_answer hasked, houtputs, hsameOutputs]
  have hblank : card.resolved = [] := by
    rw [hresolved, Resolution.links_of_open hasked hopen]
    rfl
  unfold Card.onReply
  dsimp only
  have hexact := Resolution.failed_answer hasked hopen reply
  split_ifs with hbroken
  · -- The call was rejected before.
    have hstill := hexact.mpr (Or.inl hbroken)
    have hlinks := Resolution.links_of_failed hstill
    exact ⟨by rw [hlinks]; exact hblank, fun hne ↦ absurd hlinks hne, fun _ ↦ hfailed hbroken⟩
  · have hnot : ¬ (before.answer position asked.key reply).cancelled = true := by
      rw [Bool.not_eq_true]
      exact hlive
    rw [Card.settle, if_neg hnot]
    split_ifs with hnow
    · have hlinks := Resolution.links_of_failed hnow
      exact ⟨by rw [hlinks]; exact hblank, fun hne ↦ absurd hlinks hne, fun _ ↦ rfl⟩
    · cases hlinks : (before.answer position asked.key reply).links with
      | none => exact ⟨hblank, fun hne ↦ absurd rfl hne, fun hyes ↦ absurd hyes hnow⟩
      | some links => exact ⟨rfl, fun _ ↦ rfl, fun hyes ↦ absurd hyes hnow⟩

theorem Coherent.onReply (h : Coherent card)
    (hresolution : card.resolutions[index]? = some resolution)
    (hasked : resolution.asked[position]? = some asked) (hopen : asked.reply = none)
    (reply : Except ClientError LinkReply) :
    Coherent (card.onReply index resolution position asked.key reply) := by
  obtain ⟨houtputs, hdue, hresolutions, hcurrent⟩ :=
    onReply_fields card index resolution position asked.key reply
  have hlt := (List.getElem?_eq_some_iff.mp hresolution).1
  have hlive : ∀ other found, (card.onReply index resolution position asked.key reply).resolutions[
      other]? = some found → found.cancelled = false →
        (card.onReply index resolution position asked.key reply).current = some other := by
    intro other found hfound huncancelled
    rw [hresolutions, List.getElem?_set] at hfound
    rw [hcurrent]
    split_ifs at hfound with hsame
    · subst hsame
      obtain rfl := Option.some.inj hfound
      exact h.live index resolution hresolution huncancelled
    · exact h.live other found hfound huncancelled
  by_cases hcancelled : resolution.cancelled = true
  · have hsame := onReply_of_cancelled card index hcancelled position asked.key reply
    have hblank : card.Blank → (card.onReply index resolution position asked.key reply).Blank := by
      rw [hsame]
      exact id
    refine ⟨hlive, fun hran hempty ↦ ?_, fun hran hne ↦ ?_, fun hran hne ↦ ?_⟩
    · exact hblank (h.empty (hdue ▸ hran) (houtputs ▸ hempty))
    · exact hblank (h.fresh (hdue ▸ hran) (houtputs ▸ hne))
    · obtain ⟨other, found, hother, hfound, huncancelled, htold⟩ :=
        h.tells (hdue ▸ hran) (houtputs ▸ hne)
      have hdifferent : index ≠ other := by
        rintro rfl
        obtain rfl : resolution = found := Option.some.inj (hresolution.symm.trans hfound)
        rw [huncancelled] at hcancelled
        cases hcancelled
      rw [hsame]
      exact ⟨other, found, hother, by rw [List.getElem?_set_ne hdifferent, hfound], huncancelled,
        htold⟩
  · have hcur := h.live index resolution hresolution (Bool.not_eq_true _ ▸ hcancelled)
    refine ⟨hlive, fun hran hempty ↦ ?_, fun hran hne ↦ ?_, fun hran hne ↦ ?_⟩
    · have hblank := h.empty (hdue ▸ hran) (houtputs ▸ hempty)
      rw [hblank.1] at hcur
      cases hcur
    · have hblank := h.fresh (hdue ▸ hran) (houtputs ▸ hne)
      rw [hblank.1] at hcur
      cases hcur
    · exact (h.tells (hdue ▸ hran) (houtputs ▸ hne)).onReply hcur hresolution hasked hopen reply

end Reply

/-! ### The replies so far -/

/-- The link that has come for a position of a call. -/
def Card.replyAt (card : Card) (index position : ℕ) : Option (Except ClientError LinkReply) :=
  (card.resolutions[index]?.bind fun resolution ↦ resolution.asked[position]?).bind Asked.reply

section Replies

variable (card : Card) (index position : ℕ)

theorem replyAt_cleanup : card.cleanup.replyAt index position = card.replyAt index position := by
  unfold Card.cleanup
  split
  · rename_i current _
    simp only [Card.replyAt, List.getElem?_modify]
    cases card.resolutions[index]? with
    | none => rfl
    | some resolution =>
      simp only [Option.map_eq_map, Option.map_some, Option.bind_some]
      split_ifs <;> rfl
  · rfl

theorem replyAt_flush : card.flush.replyAt index position = card.replyAt index position := by
  rw [← replyAt_cleanup card]
  unfold Card.flush
  split_ifs
  · rfl
  · simp only [Card.replyAt, List.getElem?_append]
    split_ifs with hlt
    · rfl
    · rw [List.getElem?_eq_none (not_lt.mp hlt), List.getElem?_singleton]
      split_ifs
      · simp only [Option.bind_some, Option.bind_none, ask, List.getElem?_map]
        cases card.outputs[position]? <;> rfl
      · rfl
  · rw [replyAt_cleanup]

/-- A reply is there for its own position and is the only new one. -/
theorem replyAt_onReply {call place : ℕ} {resolution : Resolution} {asked : Asked}
    (hresolution : card.resolutions[call]? = some resolution)
    (hasked : resolution.asked[place]? = some asked) (hopen : asked.reply = none)
    (reply other : Except ClientError LinkReply) :
    (card.onReply call resolution place asked.key reply).replyAt index position = some other ↔
      card.replyAt index position = some other ∨
        index = call ∧ position = place ∧ other = reply := by
  have hcall := (List.getElem?_eq_some_iff.mp hresolution).1
  have hplace := (List.getElem?_eq_some_iff.mp hasked).1
  obtain ⟨-, -, hresolutions, -⟩ := onReply_fields card call resolution place asked.key reply
  rw [Card.replyAt, hresolutions, Card.replyAt]
  by_cases hindex : call = index
  · subst hindex
    rw [List.getElem?_set_self hcall, hresolution, Option.bind_some, Option.bind_some,
      Resolution.answer]
    by_cases hposition : place = position
    · subst hposition
      rw [List.getElem?_set_self hplace, hasked, Option.bind_some, Option.bind_some, hopen]
      simp [eq_comm]
    · rw [List.getElem?_set_ne hposition]
      simp [Ne.symm hposition]
  · rw [List.getElem?_set_ne hindex]
    simp [Ne.symm hindex]

end Replies

/-! ### The page alone -/

/-- An event source that is open has brought no outputs yet. -/
def Quiet (state : App.State) : Prop := state.listening = true → state.progress.outputs = []

/-- What a step of the page does to its outputs: of an array and the one it replaces, one is
empty. -/
structure Passes (before after : App.State) (replaced : Prop) : Prop where
  quiet : Quiet after
  between : replaced → after.progress.outputs = [] ∨ before.progress.outputs = []
  same : ¬ replaced → after.progress.outputs = before.progress.outputs

section Page

variable {before after : App.State}

/-- A step that ends with the effect of the hook. -/
theorem passes_of_flush (middle : App.State) (hquiet : Quiet middle)
    (houtputs : middle.progress.outputs = before.progress.outputs)
    (hwatched : middle.watched = before.watched) (hprogress : after.progress = middle.flush.progress)
    (hafter : after.watched = middle.flush.watched)
    (hlistening : after.listening = middle.flush.listening) :
    Passes before after (after.watched ≠ before.watched) := by
  rw [← hwatched, hafter]
  have hclean : ∀ fresh : App.State, middle.flush = fresh → fresh.progress.outputs = [] →
      fresh.watched ≠ middle.watched →
      Passes before after (middle.flush.watched ≠ middle.watched) := by
    intro fresh hfresh hempty hchanged
    rw [hfresh] at hprogress ⊢
    have hnone : after.progress.outputs = [] := (congrArg _ hprogress).trans hempty
    exact ⟨fun _ ↦ hnone, fun _ ↦ Or.inl hnone, fun hsame ↦ absurd hchanged hsame⟩
  have hkeep : middle.flush = middle →
      Passes before after (middle.flush.watched ≠ middle.watched) := by
    intro hflush
    rw [hflush] at hprogress hlistening ⊢
    have hsame : after.progress.outputs = before.progress.outputs :=
      (congrArg _ hprogress).trans houtputs
    refine ⟨fun hopen ↦ ?_, fun hne ↦ absurd rfl hne, fun _ ↦ hsame⟩
    rw [congrArg App.JobProgress.outputs hprogress]
    exact hquiet (hlistening.symm.trans hopen)
  by_cases hchanged : middle.jobId = middle.watched
  · exact hkeep (if_pos hchanged)
  · rcases App.flush_cases middle with ⟨hsame, -⟩ | ⟨hnone, hflush⟩ | ⟨id, hsome, hflush⟩
    · exact absurd hsame hchanged
    · exact hclean _ hflush rfl (hnone ▸ hchanged)
    · exact hclean _ hflush rfl (hsome ▸ hchanged)

theorem passes_step {action : App.Action} (hquiet : Quiet before) (hfinal : Final action)
    (hstep : App.Step before action after) :
    Passes before after (Replaces before after action) := by
  cases hstep with
  | choose => exact passes_of_flush before hquiet rfl rfl rfl rfl rfl
  | @uploaded result =>
    cases result with
    | ok upload => exact passes_of_flush before hquiet rfl rfl rfl rfl rfl
    | error message => exact passes_of_flush before hquiet rfl rfl rfl rfl rfl
  | run => exact ⟨hquiet, fun hne ↦ absurd rfl hne, fun _ ↦ rfl⟩
  | @created index fileId result =>
    cases result with
    | ok id => exact passes_of_flush before hquiet rfl rfl rfl rfl rfl
    | error message => exact ⟨hquiet, fun hne ↦ absurd rfl hne, fun _ ↦ rfl⟩
  | message hlistening event =>
    refine ⟨?_, fun _ ↦ Or.inr (hquiet hlistening), fun hno ↦ absurd trivial hno⟩
    have hheard : Quiet { before with
        progress := {
          state := some event.state, progress := event.progress
          outputs := App.outputsFrom event.result, error := event.error }
        listening := decide (¬ event.state.Terminal) } := fun hopen ↦
      hfinal.resolve_right (of_decide_eq_true hopen)
    exact (passes_of_flush _ hheard rfl rfl rfl rfl rfl).quiet
  | lost hlistening =>
    refine passes_of_flush { before with
      progress := if before.progress.state = some .completed ∨ before.progress.state = some .failed
        then before.progress
        else { before.progress with error := some "Lost connection to the server" }
      listening := false } (fun hopen ↦ by cases hopen) ?_ rfl rfl rfl rfl
    dsimp only
    split_ifs
    · rfl
    · rfl
  | effect => exact passes_of_flush before hquiet rfl rfl rfl rfl rfl

end Page

/-! ### The card on the page -/

structure Holds (state : State) : Prop where
  card : Coherent state.card
  same : state.card.outputs = state.app.progress.outputs
  quiet : Quiet state.app

/-- What a step can do. -/
theorem step_cases {state after : State} {action : Action} (h : step state action = some after) :
    (∃ page app, action = .app page ∧ App.Step state.app page app ∧
      after = state.rendered app page) ∨
    (action = .effect ∧ after = { state with card := state.card.flush }) ∨
    ∃ index resolution position asked reply, action = .reply index position reply ∧
      state.card.resolutions[index]? = some resolution ∧
      resolution.asked[position]? = some asked ∧ asked.reply = none ∧
      after = { state with
        card := state.card.onReply index resolution position asked.key reply } := by
  cases action with
  | app page =>
    obtain ⟨app, happ, rfl⟩ := Option.map_eq_some_iff.mp h
    exact Or.inl ⟨page, app, rfl, App.step_cases happ, rfl⟩
  | effect =>
    obtain rfl := Option.some.inj h
    exact Or.inr (Or.inl ⟨rfl, rfl⟩)
  | reply index position reply =>
    simp only [step, Option.bind_eq_bind, Option.bind_eq_some_iff] at h
    obtain ⟨resolution, hresolution, asked, hasked, hrest⟩ := h
    split_ifs at hrest with hopen
    obtain rfl := Option.some.inj hrest
    exact Or.inr (Or.inr ⟨index, resolution, position, asked, reply, rfl, hresolution, hasked,
      Option.isNone_iff_eq_none.mp hopen, rfl⟩)

theorem Holds.step {state after : State} {action : Action} (h : Holds state)
    (hordered : Ordered state action) (hstep : step state action = some after) : Holds after := by
  rcases step_cases hstep with ⟨page, app, rfl, happ, rfl⟩ | ⟨rfl, rfl⟩ |
    ⟨index, resolution, position, asked, reply, rfl, hresolution, hasked, hopen, rfl⟩
  · have hpasses := passes_step h.quiet hordered happ
    unfold State.rendered
    split_ifs with hreplaces
    · refine ⟨h.card.render ?_, rfl, hpasses.quiet⟩
      rw [h.same]
      exact hpasses.between hreplaces
    · exact ⟨h.card, h.same.trans (hpasses.same hreplaces).symm, hpasses.quiet⟩
  · exact ⟨h.card.flush, flush_outputs.trans h.same, h.quiet⟩
  · obtain ⟨houtputs, -⟩ := onReply_fields state.card index resolution position asked.key reply
    exact ⟨h.card.onReply hresolution hasked hopen reply, houtputs.trans h.same, h.quiet⟩

/-- The replies that are there are those of the run. -/
theorem replyAt_iff_mem {actions : List Action} {state : State}
    (hrun : screen.run actions = some state) (index position : ℕ)
    (reply : Except ClientError LinkReply) :
    state.card.replyAt index position = some reply ↔ .reply index position reply ∈ actions := by
  refine run_induction (motive := fun actions state ↦
    state.card.replyAt index position = some reply ↔ .reply index position reply ∈ actions)
    (iff_of_false (fun hnone ↦ by cases hnone) List.not_mem_nil) ?_ hrun
  intro actions state action after _ ih hstep
  rw [List.mem_append, List.mem_singleton, ← ih]
  rcases step_cases hstep with ⟨page, app, rfl, -, rfl⟩ | ⟨rfl, rfl⟩ |
    ⟨call, resolution, place, asked, other, rfl, hresolution, hasked, hopen, rfl⟩
  · rw [or_iff_left fun hnew ↦ by cases hnew]
    unfold State.rendered
    split_ifs
    · rw [← replyAt_flush state.card]
      rfl
    · rfl
  · rw [or_iff_left fun hnew ↦ by cases hnew]
    rw [replyAt_flush]
  · rw [replyAt_onReply state.card index position hresolution hasked hopen, Action.reply.injEq]

theorem holds_of_run {actions : List Action} {state : State}
    (hrun : screen.run actions = some state) (hordered : screen.Meets Ordered actions) :
    Holds state :=
  run_induction_of_meets ⟨coherent_start, rfl, nofun⟩ (fun _ _ _ h hstep ↦ h.step hstep) hrun
    hordered

/-! ### What is on the screen -/

/-- The links are those of a call, each as it was sent for its key. -/
structure Sent (actions : List Action) (call : ℕ) (keys : List String)
    (links : List ResolvedOutput) : Prop where
  keys : links.map ResolvedOutput.key = keys
  link : ∀ position link, links[position]? = some link →
    link.previewable = isPreviewable link.key ∧
      ∃ reply, .reply call position (.ok reply) ∈ actions ∧ reply.url = link.url

section Screen

variable {actions : List Action} {state : State}

theorem sent_of_links (hrun : screen.run actions = some state) {call : ℕ}
    {resolution : Resolution} (hresolution : state.card.resolutions[call]? = some resolution)
    {links : List ResolvedOutput} (hlinks : resolution.links = some links) :
    Sent actions call resolution.outputs links where
  keys := Resolution.keys_of_links hlinks
  link := by
    intro position link hlink
    rw [getElem?_of_mapM hlinks, Option.bind_eq_some_iff] at hlink
    obtain ⟨asked, hasked, hlink⟩ := hlink
    obtain ⟨reply, hreply, rfl⟩ := Asked.link_eq_some_iff.mp hlink
    refine ⟨rfl, reply, (replyAt_iff_mem hrun call position (.ok reply)).mp ?_, rfl⟩
    rw [Card.replyAt, hresolution, Option.bind_some, hasked, Option.bind_some, hreply]

/-- When every link of a call has come, they can be shown. -/
theorem links_of_replies (hrun : screen.run actions = some state) {call : ℕ}
    {resolution : Resolution} (hresolution : state.card.resolutions[call]? = some resolution)
    (hall : ∀ position < resolution.outputs.length,
      ∃ reply, .reply call position (.ok reply) ∈ actions) : resolution.links ≠ none := by
  intro hnone
  obtain ⟨asked, hmem, hlink⟩ := mapM_eq_none_iff.mp hnone
  obtain ⟨position, hasked⟩ := List.mem_iff_getElem?.mp hmem
  have hlt := (List.getElem?_eq_some_iff.mp hasked).1
  obtain ⟨reply, hreply⟩ := hall position (by rwa [Resolution.outputs, List.length_map])
  have hat := (replyAt_iff_mem hrun call position (.ok reply)).mpr hreply
  rw [Card.replyAt, hresolution, Option.bind_some, hasked, Option.bind_some] at hat
  rw [Asked.link_eq_some_iff.mpr ⟨reply, hat, rfl⟩] at hlink
  cases hlink

theorem failed_of_reply (hrun : screen.run actions = some state) {call : ℕ}
    {resolution : Resolution} (hresolution : state.card.resolutions[call]? = some resolution)
    {position : ℕ} {error : ClientError} (hreply : .reply call position (.error error) ∈ actions) :
    resolution.failed = true := by
  have hat := (replyAt_iff_mem hrun call position (.error error)).mpr hreply
  rw [Card.replyAt, hresolution, Option.bind_some, Option.bind_eq_some_iff] at hat
  obtain ⟨asked, hasked, hfailed⟩ := hat
  refine List.any_eq_true.mpr ⟨asked, List.mem_of_getElem? hasked, ?_⟩
  rcases asked with ⟨key, reply⟩
  rw [show reply = some (.error error) from hfailed]
  rfl

/-- The card shows nothing, or how far the call for its array has come. -/
theorem shown_cases (h : Holds state) : state.card.shown = [] ∨
    state.card.Tells ∧ state.card.shown = state.card.resolved := by
  by_cases hempty : state.card.outputs = []
  · exact Or.inl (if_pos hempty)
  · have hshown : state.card.shown = state.card.resolved := if_neg hempty
    cases hdue : state.card.due with
    | true => exact Or.inl (hshown.trans (h.card.fresh hdue hempty).2)
    | false => exact Or.inr ⟨h.card.tells hdue hempty, hshown⟩

/-- The page of a run whose steps fit. -/
theorem page_of_run (hrun : screen.run actions = some state) (hfits : screen.Meets Fits actions) :
    App.Accounted state.app ∧ App.ShownFits state.app := by
  refine run_induction_of_meets (motive := fun state ↦
    App.Accounted state.app ∧ App.ShownFits state.app)
    ⟨App.accounted_start, App.shownFits_start⟩ ?_ hrun hfits
  rintro before action after ⟨haccounted, hshown⟩ hfit hstep
  rcases step_cases hstep with ⟨page, app, rfl, happ, rfl⟩ | ⟨rfl, rfl⟩ |
    ⟨call, resolution, place, asked, other, rfl, -, -, -, rfl⟩
  · exact ⟨haccounted.step happ, (App.step_spec hshown haccounted happ).mpr hfit⟩
  · exact ⟨haccounted, hshown⟩
  · exact ⟨haccounted, hshown⟩

end Screen

/-- In every run in which only the event that ends a job carries outputs: the links on the screen
are those that were sent for the outputs of the job that is shown, and when all of them have come
they are on the screen, without an error; when one could not be had, the error is. In a run whose
steps fit, the job is one of the file that is shown. -/
theorem links_are_current {actions : List Action} {state : State}
    (hrun : screen.run actions = some state) (hordered : screen.Meets Ordered actions) :
    (state.card.shown = [] ∨ ∃ call, state.card.current = some call ∧
      Sent actions call state.app.progress.outputs state.card.shown) ∧
    (∀ call, state.card.current = some call → state.card.due = false →
      ((∀ position < state.app.progress.outputs.length,
          ∃ reply, .reply call position (.ok reply) ∈ actions) →
        state.card.shown.map ResolvedOutput.key = state.app.progress.outputs ∧
          state.card.error = none) ∧
      ∀ position error, .reply call position (.error error) ∈ actions →
        state.card.shown = [] ∧ state.card.error = some linkFailed) ∧
    (screen.Meets Fits actions → state.card.shown ≠ [] →
      ∃ id, state.app.watched = some id ∧ state.app.Belongs id) := by
  have h := holds_of_run hrun hordered
  refine ⟨?_, fun call hcurrent hdue ↦ ?_, fun hfits hne ↦ ?_⟩
  · rcases shown_cases h with hnone | ⟨htells, hshown⟩
    · exact Or.inl hnone
    · obtain ⟨call, resolution, hcurrent, hresolution, -, houtputs, hresolved, -⟩ := htells
      cases hlinks : resolution.links with
      | none =>
        rw [hlinks] at hresolved
        exact Or.inl (hshown.trans hresolved)
      | some links =>
        rw [hlinks] at hresolved
        refine Or.inr ⟨call, hcurrent, ?_⟩
        rw [hshown, hresolved, ← h.same, ← houtputs]
        exact sent_of_links hrun hresolution hlinks
  · have hne : state.card.outputs ≠ [] := by
      intro hempty
      rw [(h.card.empty hdue hempty).1] at hcurrent
      cases hcurrent
    have hshown : state.card.shown = state.card.resolved := if_neg hne
    obtain ⟨other, resolution, hother, hresolution, -, houtputs, hresolved, hloaded, hfailed⟩ :=
      h.card.tells hdue hne
    obtain rfl : other = call := Option.some.inj (hother.symm.trans hcurrent)
    refine ⟨fun hall ↦ ?_, fun position error hreply ↦ ?_⟩
    · rw [← h.same, ← houtputs] at hall
      have hsome := links_of_replies hrun hresolution hall
      obtain ⟨links, hlinks⟩ := Option.ne_none_iff_exists'.mp hsome
      refine ⟨?_, hloaded hsome⟩
      rw [hshown, hresolved, hlinks, ← h.same, ← houtputs]
      exact Resolution.keys_of_links hlinks
    · have hbroken := failed_of_reply hrun hresolution hreply
      rw [hshown, hresolved, Resolution.links_of_failed hbroken]
      exact ⟨rfl, hfailed hbroken⟩
  · obtain ⟨-, hfits⟩ := page_of_run hrun hfits
    refine hfits.result fun hidle ↦ hne (if_pos ?_)
    rw [h.same, hidle]
    rfl

/-- The event that ends a job with one output. -/
def endsWith (id key : String) : JobEvent where
  jobId := id
  state := .completed
  progress := 100
  result := some (.object [("outputs", .array [.string key])])

/-- Two jobs one after the other; the link for the output of the first comes when that of the second
is waited for. -/
def lateLink : List Action :=
  [.app .choose, .app (.uploaded (.ok App.firstFile)), .app (.run .imageThumbnail),
    .app (.created 0 (.ok "1")), .app .effect, .app (.message (endsWith "1" "k.webp")), .effect,
    .app (.run .imageConvert), .app (.created 0 (.ok "2")), .app .effect, .effect,
    .app (.message (endsWith "2" "m.png")), .effect,
    .reply 0 0 (.ok { url := "/files/k.webp", signed := false, expiresAt := none }),
    .reply 1 0 (.ok { url := "/files/m.png", signed := false, expiresAt := none })]

theorem links_are_current_lateLink :
    ∃ state, screen.run lateLink = some state ∧
      state.card.shown.map ResolvedOutput.url = ["/files/m.png"] ∧
      (state.card.shown = [] ∨ ∃ call, state.card.current = some call ∧
        Sent lateLink call state.app.progress.outputs state.card.shown) := by
  have hordered : screen.Meets Ordered lateLink := by
    refine meets_of_forall fun action haction state ↦ ?_
    simp only [lateLink, List.mem_cons, List.not_mem_nil, or_false] at haction
    rcases haction with rfl | rfl | rfl | rfl | rfl | rfl | rfl | rfl | rfl | rfl | rfl | rfl |
      rfl | rfl | rfl
    case inr.inr.inr.inr.inr.inl => exact Or.inr (Or.inl rfl)
    case inr.inr.inr.inr.inr.inr.inr.inr.inr.inr.inr.inl => exact Or.inr (Or.inl rfl)
    all_goals trivial
  have hurls : (screen.run lateLink).map
      (fun state ↦ state.card.shown.map ResolvedOutput.url) = some ["/files/m.png"] := by
    decide +kernel
  obtain ⟨state, hrun, hshown⟩ := Option.map_eq_some_iff.mp hurls
  exact ⟨state, hrun, hshown, (links_are_current hrun hordered).1⟩

end FileForge.Frontend.ResultCard
