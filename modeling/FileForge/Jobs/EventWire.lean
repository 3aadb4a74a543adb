import FileForge.Foundation.EventSource
import FileForge.Foundation.JsonText
import FileForge.Jobs.StreamLifecycle

/-!
# Events on the wire

An event as the texts that carry it: the message that `publishJobEvent` sends through Redis, what
the listener of `subscribeToJob` reads of it, what `writeEvent` and the keep-alive write to the
response, and what `source.onmessage` of `src/frontend/src/useJobProgress.ts` hears of a dispatched
event. `JSON.parse` is a parameter, of which only the texts of the events matter.

Everything that a response carries is a sequence of frames (`body_eq_frames`): the text of an event
has no control character, so that it is one line. Whatever a stream writes is therefore read as it
was written (`read_body`, `heard_body`), and a connection that breaks off has delivered the first
events of it and nothing else (`heard_prefix`). `heard_wire` is the way from `publishJobEvent` to
the browser.
-/

set_option autoImplicit false
set_option relaxedAutoImplicit false

namespace FileForge.Jobs.EventWire

open Foundation.JsonValue Foundation.EventSource Shared.Contract Events StreamLifecycle

/-! ### Texts -/

/-- `JSON.stringify` of an event. -/
def eventText (event : JobEvent) : String := Foundation.JsonText.stringify event.toJson

/-- `publishJobEvent`: the channel and the message. -/
def publishJobEvent (event : JobEvent) : String × String :=
  (channelFor event.jobId, eventText event)

/-- `writeEvent`: `data: ${JSON.stringify(event)}` and an empty line. -/
def writeEvent (event : JobEvent) : List Char :=
  "data: ".toList ++ (eventText event).toList ++ "\n\n".toList

/-- The keep-alive. -/
def keepalive : List Char := ": keepalive\n\n".toList

/-- What belongs to a mark in the body of an event stream. The other answers are no event stream. -/
def markChars : Mark → List Char
  | .event event => writeEvent event
  | .comment => keepalive
  | _ => []

/-- The body of a response. -/
def body (log : List Mark) : List Char := log.flatMap markChars

/-- The events that were written. -/
def sent (log : List Mark) : List JobEvent := log.filterMap fun
  | .event event => some event
  | _ => none

/-- The keep-alive comments that were written. -/
def comments (log : List Mark) : List (List Char) := log.filterMap fun
  | .comment => some " keepalive".toList
  | _ => none

/-- What happens while the connection is open. -/
inductive Happening
  /-- The worker publishes an event. -/
  | published (event : JobEvent)
  /-- The keep-alive fires. -/
  | tick

/-- The events that were published. -/
def published (happenings : List Happening) : List JobEvent := happenings.filterMap fun
  | .published event => some event
  | .tick => none

/-- How often the keep-alive fired. -/
def ticks (happenings : List Happening) : ℕ := happenings.countP fun
  | .published _ => false
  | .tick => true

section Parsed

variable (parse : String → Option Json)

/-- The listener that `subscribeToJob` registers. A text that is not JSON is dropped. -/
def listener (jobId incoming payload : String) : Option JobEvent :=
  handler jobId incoming (parse payload)

/-- `source.onmessage`: the event that it takes over, if any. Only events without a type of their
own come here. -/
def onmessage (message : Message) : Option JobEvent :=
  if message.type = messageType then
    (parse (String.ofList message.data)).bind JobEventSchema.safeParse
  else none

/-- The events that the browser hears of a stream. -/
def heard (stream : List Char) : List JobEvent :=
  (readStream stream).messages.filterMap (onmessage parse)

/-- What the connection of a job writes when something happens. -/
def relayed (jobId : String) : Happening → List Mark
  | .published event =>
    let passed := listener parse jobId (publishJobEvent event).1 (publishJobEvent event).2
    (passed.map Mark.event).toList
  | .tick => [.comment]

/-- All that a connection writes. -/
def wire (jobId : String) (happenings : List Happening) : List Char :=
  body (happenings.flatMap (relayed parse jobId))

end Parsed

/-! ### The frames of a body -/

/-- The frame that a mark is written as. -/
def frame? : Mark → Option Frame
  | .event event => some (.message (eventText event).toList)
  | .comment => some (.comment " keepalive".toList)
  | _ => none

theorem markChars_eq (mark : Mark) :
    markChars mark = ((frame? mark).map Frame.chars).getD [] := by
  cases mark with
  | event event => rfl
  | comment => rfl
  | _ => rfl

/-- A body is the frames of what was written. -/
theorem body_eq_frames (log : List Mark) :
    body log = (log.filterMap frame?).flatMap Frame.chars := by
  induction log with
  | nil => rfl
  | cons mark rest ih =>
    have hcons : body (mark :: rest) = markChars mark ++ body rest := List.flatMap_cons
    rw [hcons, ih, markChars_eq]
    cases hframe : frame? mark with
    | none =>
      rw [List.filterMap_cons_none hframe]
      rfl
    | some frame =>
      rw [List.filterMap_cons_some hframe]
      rfl

/-- A plain character ends no line. -/
theorem not_isLineEnd_of_isPlain {c : Char} (h : Foundation.JsonText.IsPlain c) :
    ¬ IsLineEnd c := by
  rintro (rfl | rfl) <;> exact absurd h (by decide)

/-- Neither the text of an event nor the comment has a line end in it. -/
theorem not_isLineEnd_frame {mark : Mark} {frame : Frame} (h : frame? mark = some frame) :
    ∀ c ∈ frame.text, ¬ IsLineEnd c := by
  intro c hc
  cases mark with
  | event event =>
    have hframe : Frame.message (eventText event).toList = frame := Option.some.inj h
    rw [← hframe] at hc
    exact not_isLineEnd_of_isPlain (Foundation.JsonText.isPlain_stringify _ c hc)
  | comment =>
    have hframe : Frame.comment " keepalive".toList = frame := Option.some.inj h
    rw [← hframe] at hc
    have hplain : ∀ d ∈ " keepalive".toList, ¬ (d = '\n' ∨ d = '\r') :=
      Foundation.EcmaText.forall_mem_of_all (by decide)
    exact hplain c hc
  | _ => cases h

/-! ### Reading a body -/

/-- The message that is dispatched for an event. -/
def dispatched (event : JobEvent) : Message :=
  { data := (eventText event).toList, lastEventId := [] }

theorem filterMap_payload (log : List Mark) :
    (log.filterMap frame?).filterMap Frame.payload? =
      (sent log).map fun event ↦ (eventText event).toList := by
  rw [List.filterMap_filterMap, sent, List.map_filterMap]
  apply List.filterMap_congr
  intro mark _
  cases mark <;> rfl

theorem filterMap_comment (log : List Mark) :
    (log.filterMap frame?).filterMap Frame.comment? = comments log := by
  rw [List.filterMap_filterMap, comments]
  apply List.filterMap_congr
  intro mark _
  cases mark <;> rfl

/-- A body begins with no byte order mark. -/
theorem withoutByteOrderMark_body (log : List Mark) :
    withoutByteOrderMark (body log) = body log := by
  rw [body_eq_frames]
  cases log.filterMap frame? with
  | nil => rfl
  | cons frame rest => cases frame <;> rfl

/-- Of a body every event is dispatched, in the order of writing, every comment is passed over, and
nothing is left pending. -/
theorem read_body (log : List Mark) :
    (readStream (body log)).messages = (sent log).map dispatched ∧
      (readStream (body log)).comments = comments log ∧ (readStream (body log)).Waiting := by
  have hread : readStream (body log) = ({} : Reader).after (log.filterMap frame?) := by
    rw [readStream, withoutByteOrderMark_body, body_eq_frames]
    apply read_frames .start
    intro frame hframe
    obtain ⟨mark, -, hmark⟩ := List.mem_filterMap.mp hframe
    exact not_isLineEnd_frame hmark
  rw [hread]
  refine ⟨?_, ?_, Reader.Waiting.start.after _⟩
  · show [] ++ List.map _ ((log.filterMap frame?).filterMap Frame.payload?) = _
    rw [filterMap_payload, List.nil_append, List.map_map]
    rfl
  · show [] ++ (log.filterMap frame?).filterMap Frame.comment? = _
    rw [filterMap_comment, List.nil_append]

section Parsed

variable {parse : String → Option Json}

/-- Assumes: `JSON.parse` undoes the text of the event. The browser takes over a valid event. -/
theorem onmessage_dispatched {event : JobEvent}
    (hparse : parse (eventText event) = some event.toJson) (hvalid : event.Valid) :
    onmessage parse (dispatched event) = some event := by
  rw [onmessage, dispatched, if_pos rfl, String.ofList_toList, hparse, Option.bind_some,
    safeParse_toJson, if_pos hvalid]

/-- Assumes: `JSON.parse` undoes the texts of the events, which are valid. The browser hears what
was written. -/
theorem heard_body {log : List Mark}
    (h : ∀ event ∈ sent log, parse (eventText event) = some event.toJson ∧ event.Valid) :
    heard parse (body log) = sent log := by
  rw [heard, (read_body log).1, List.filterMap_map]
  calc (sent log).filterMap (onmessage parse ∘ dispatched)
      = (sent log).filterMap some := List.filterMap_congr fun event hevent ↦
        onmessage_dispatched (h event hevent).1 (h event hevent).2
    _ = sent log := List.filterMap_some

/-- The same for a connection that breaks off: the browser has heard the first of the events. -/
theorem heard_prefix {log : List Mark}
    (h : ∀ event ∈ sent log, parse (eventText event) = some event.toJson ∧ event.Valid)
    {arrived : List Char} (harrived : arrived <+: body log) :
    heard parse arrived <+: sent log := by
  rw [← heard_body h]
  exact (messages_prefix_readStream harrived).filterMap _

/-- The listener passes on a valid event of its job. -/
theorem listener_published {event : JobEvent}
    (hparse : parse (eventText event) = some event.toJson) (hvalid : event.Valid) :
    listener parse event.jobId (publishJobEvent event).1 (publishJobEvent event).2 =
      some event := by
  have hheard := handler_publication event.jobId event
  rw [publication, if_pos ⟨rfl, hvalid⟩] at hheard
  rw [listener, publishJobEvent, hparse, hheard]

/-- Assumes: the published events are of the job and valid, and `JSON.parse` undoes their texts. The
connection writes them all, and a comment at every tick. -/
theorem sent_relayed {jobId : String} {happenings : List Happening}
    (h : ∀ event ∈ published happenings, event.jobId = jobId ∧
      parse (eventText event) = some event.toJson ∧ event.Valid) :
    sent (happenings.flatMap (relayed parse jobId)) = published happenings ∧
      comments (happenings.flatMap (relayed parse jobId)) =
        List.replicate (ticks happenings) " keepalive".toList := by
  induction happenings with
  | nil => exact ⟨rfl, rfl⟩
  | cons happening rest ih =>
    cases happening with
    | published event =>
      obtain ⟨rfl, hparse, hvalid⟩ := h event List.mem_cons_self
      obtain ⟨hsent, hcomments⟩ := ih fun later hlater ↦ h later (List.mem_cons_of_mem event hlater)
      have hrelayed : relayed parse event.jobId (.published event) = [.event event] := by
        rw [relayed, listener_published hparse hvalid]
        rfl
      rw [List.flatMap_cons, hrelayed]
      exact ⟨congrArg (event :: ·) hsent, hcomments⟩
    | tick =>
      obtain ⟨hsent, hcomments⟩ := ih h
      have hticks : ticks (.tick :: rest) = ticks rest + 1 := List.countP_cons_of_pos rfl
      rw [List.flatMap_cons, hticks, List.replicate_succ]
      exact ⟨hsent, congrArg (" keepalive".toList :: ·) hcomments⟩

/-- Assumes: the published events are of the job, their progress is between 0 and 100, and
`JSON.parse` undoes `JSON.stringify` on them. Over the wire each is one message that carries its
text, the comments are those of the keep-alive, nothing is left pending, and the browser hears the
events as they were published. -/
theorem heard_wire {jobId : String} {happenings : List Happening}
    (hparse : ∀ event ∈ published happenings, parse (eventText event) = some event.toJson)
    (hpublished : ∀ event ∈ published happenings,
      event.jobId = jobId ∧ 0 ≤ event.progress ∧ event.progress ≤ 100) :
    heard parse (wire parse jobId happenings) = published happenings ∧
      (readStream (wire parse jobId happenings)).messages =
        (published happenings).map dispatched ∧
      (readStream (wire parse jobId happenings)).comments =
        List.replicate (ticks happenings) " keepalive".toList ∧
      (readStream (wire parse jobId happenings)).Waiting := by
  obtain ⟨hsent, hcomments⟩ := sent_relayed fun event hevent ↦
    ⟨(hpublished event hevent).1, hparse event hevent, (hpublished event hevent).2⟩
  obtain ⟨hmessages, hpassed, hwaiting⟩ :=
    read_body (happenings.flatMap (relayed parse jobId))
  rw [hsent] at hmessages
  rw [hcomments] at hpassed
  rw [wire]
  refine ⟨?_, hmessages, hpassed, hwaiting⟩
  rw [heard_body, hsent]
  intro event hevent
  rw [hsent] at hevent
  exact ⟨hparse event hevent, (hpublished event hevent).2⟩

end Parsed

/-- A `JSON.parse` for the texts of some events. -/
def parseOf (events : List JobEvent) (text : String) : Option Json :=
  (events.find? fun event ↦ eventText event == text).map JobEvent.toJson

theorem parseOf_cons_self (event : JobEvent) (events : List JobEvent) :
    parseOf (event :: events) (eventText event) = some event.toJson := by
  have hfound : (event :: events).find? (fun other ↦ eventText other == eventText event) =
      some event := List.find?_cons_of_pos (beq_self_eq_true _)
  rw [parseOf, hfound, Option.map_some]

theorem parseOf_cons_of_ne {event : JobEvent} {text : String}
    (h : (eventText event == text) = false) (events : List JobEvent) :
    parseOf (event :: events) text = parseOf events text := by
  have hfound : (event :: events).find? (fun other ↦ eventText other == text) =
      events.find? fun other ↦ eventText other == text :=
    List.find?_cons_of_neg (by rw [h]; decide)
  rw [parseOf, parseOf, hfound]

def halfway : JobEvent :=
  { jobId := "7", state := .processing, progress := 40, operation := some "csv.validate" }

/-- The error text looks like the end of the event, a second one and a comment. -/
def refused : JobEvent :=
  { jobId := "7", state := .failed, progress := 0
    error := some "Missing column \"a\n\ndata: 1\r\r: b\"" }

theorem heard_wire_refused :
    heard (parseOf [halfway, refused]) (wire (parseOf [halfway, refused]) "7"
        [.published halfway, .tick, .published refused]) = [halfway, refused] ∧
      (readStream (wire (parseOf [halfway, refused]) "7"
        [.published halfway, .tick, .published refused])).messages =
          [dispatched halfway, dispatched refused] ∧
      (readStream (wire (parseOf [halfway, refused]) "7"
        [.published halfway, .tick, .published refused])).comments = [" keepalive".toList] ∧
      (readStream (wire (parseOf [halfway, refused]) "7"
        [.published halfway, .tick, .published refused])).Waiting := by
  have hother : (eventText halfway == eventText refused) = false := by
    decide +kernel
  apply heard_wire
  · intro event hevent
    rcases List.mem_cons.mp hevent with rfl | hevent
    · exact parseOf_cons_self halfway [refused]
    · rw [List.mem_singleton.mp hevent, parseOf_cons_of_ne hother]
      exact parseOf_cons_self refused []
  · intro event hevent
    rcases List.mem_cons.mp hevent with rfl | hevent
    · exact ⟨rfl, by decide, by decide⟩
    · rw [List.mem_singleton.mp hevent]
      exact ⟨rfl, by decide, by decide⟩

end FileForge.Jobs.EventWire
