import Mathlib.Tactic.Common
import FileForge.Foundation.EcmaText

/-!
# The framing of an event stream

How an `EventSource` reads its stream, one character after the other. A line ends at a line feed, a
carriage return or the two together, and at nothing else. A line that begins with a colon is a
comment; any other line is a field, its name up to the first colon and its value after it, less one
space. An empty line dispatches the data collected since the last one, if there is any, and clears
it. What follows the last line end is never dispatched.

For a writer, `read_frames` is the rule to use: when every payload is written as `data: …` with an
empty line after it, and no payload and no comment has a line end in it, the reader dispatches the
payloads as they are and in their order, and passes over the comments. It rests on what a whole line
does (`read_line`), what one payload does (`read_message`) and what one comment does
(`read_comment`). A stream that is cut off dispatches fewer events, and no others
(`messages_prefix_readStream`).
-/

set_option autoImplicit false
set_option relaxedAutoImplicit false

namespace FileForge.Foundation.EventSource

/-! ### The reader -/

/-- The type of an event that names none. -/
def messageType : List Char := ['m', 'e', 's', 's', 'a', 'g', 'e']

/-- A dispatched event. -/
structure Message where
  type : List Char := messageType
  data : List Char
  lastEventId : List Char
  deriving DecidableEq, Repr

/-- The state of the reader. -/
structure Reader where
  /-- The last character ended a line as a carriage return: a line feed now belongs to it. -/
  afterReturn : Bool := false
  /-- The line that is being read. -/
  line : List Char := []
  data : List Char := []
  type : List Char := []
  lastEventId : List Char := []
  reconnection : Option (List Char) := none
  /-- The comments that were passed over. -/
  comments : List (List Char) := []
  /-- The events dispatched so far. -/
  messages : List Message := []
  deriving DecidableEq, Repr

/-- Every line of data keeps its line end until the event is dispatched without the last one. -/
def withoutLastLineFeed (data : List Char) : List Char :=
  if data.getLast? = some '\n' then data.dropLast else data

/-- An empty line. -/
def Reader.dispatch (reader : Reader) : Reader :=
  if reader.data = [] then { reader with type := [] }
  else { reader with
    messages := reader.messages ++ [{
      type := if reader.type = [] then messageType else reader.type
      data := withoutLastLineFeed reader.data
      lastEventId := reader.lastEventId }]
    data := []
    type := [] }

/-- A field. One with another name is passed over. -/
def Reader.field (reader : Reader) (name value : List Char) : Reader :=
  if name = ['e', 'v', 'e', 'n', 't'] then { reader with type := value }
  else if name = ['d', 'a', 't', 'a'] then { reader with data := reader.data ++ value ++ ['\n'] }
  else if name = ['i', 'd'] then
    if '\x00' ∈ value then reader else { reader with lastEventId := value }
  else if name = ['r', 'e', 't', 'r', 'y'] then
    if value.all Char.isDigit then { reader with reconnection := some value } else reader
  else reader

/-- One space at the start of a value does not belong to it. -/
def withoutFirstSpace : List Char → List Char
  | ' ' :: value => value
  | value => value

/-- A whole line. -/
def Reader.process (reader : Reader) : List Char → Reader
  | [] => reader.dispatch
  | ':' :: comment => { reader with comments := reader.comments ++ [comment] }
  | line =>
    reader.field (line.takeWhile (· ≠ ':')) (withoutFirstSpace (line.dropWhile (· ≠ ':')).tail)

/-- The line that is being read has ended. -/
def Reader.endLine (reader : Reader) : Reader :=
  ({ reader with line := [] } : Reader).process reader.line

/-- One more character of the stream. -/
def Reader.step (reader : Reader) (c : Char) : Reader :=
  if c = '\n' then
    if reader.afterReturn then { reader with afterReturn := false } else reader.endLine
  else if c = '\r' then
    { ({ reader with afterReturn := false } : Reader).endLine with afterReturn := true }
  else { reader with afterReturn := false, line := reader.line ++ [c] }

/-- What has arrived is read. -/
def Reader.read (reader : Reader) (chars : List Char) : Reader := chars.foldl Reader.step reader

/-- A byte order mark in front does not belong to the stream. -/
def withoutByteOrderMark : List Char → List Char
  | '\uFEFF' :: chars => chars
  | chars => chars

/-- A stream is read from its start. -/
def readStream (chars : List Char) : Reader := ({} : Reader).read (withoutByteOrderMark chars)

example : ((readStream "data: a\r\ndata:b\r: c\n\ndata: d\n".toList).messages.map (·.data)) =
    [['a', '\n', 'b']] := by
  decide

/-! ### Lines -/

/-- The characters that end a line. -/
def IsLineEnd (c : Char) : Prop := c = '\n' ∨ c = '\r'

/-- The stream is read as it comes. -/
theorem read_append (reader : Reader) (first second : List Char) :
    reader.read (first ++ second) = (reader.read first).read second :=
  List.foldl_append

/-- Assumes: the text has no line end in it. It is added to the line. -/
theorem read_text {reader : Reader} (hreturn : reader.afterReturn = false) {text : List Char}
    (h : ∀ c ∈ text, ¬ IsLineEnd c) :
    reader.read text = { reader with line := reader.line ++ text } := by
  induction text generalizing reader with
  | nil =>
    show reader = _
    rw [List.append_nil]
  | cons c rest ih =>
    have hc : ¬ (c = '\n' ∨ c = '\r') := h c List.mem_cons_self
    have hstep : reader.step c = { reader with line := reader.line ++ [c] } := by
      rw [Reader.step, if_neg (fun heq ↦ hc (.inl heq)), if_neg (fun heq ↦ hc (.inr heq)),
        ← hreturn]
    have hrest : ({ reader with line := reader.line ++ [c] } : Reader).read rest =
        { reader with line := (reader.line ++ [c]) ++ rest } :=
      ih hreturn fun d hd ↦ h d (List.mem_cons_of_mem c hd)
    rw [List.append_assoc] at hrest
    show (reader.step c).read rest = _
    rw [hstep, hrest]
    rfl

/-- Assumes: the reader stands at the start of a line, and no line end is in the text. The text is
read as one line. -/
theorem read_line {reader : Reader} (hreturn : reader.afterReturn = false)
    (hline : reader.line = []) {text : List Char} (h : ∀ c ∈ text, ¬ IsLineEnd c) :
    reader.read (text ++ ['\n']) = reader.process text := by
  have hread := read_text hreturn h
  rw [hline, List.nil_append] at hread
  have hsame : ({ reader with line := [] } : Reader) = reader := by
    rw [← hline]
  rw [read_append, hread]
  show ({ reader with line := text } : Reader).step '\n' = _
  rw [Reader.step, if_pos rfl, if_neg (by simp [hreturn])]
  show ({ reader with line := [] } : Reader).process text = _
  rw [hsame]

/-! ### Frames -/

/-- Nothing is pending: the reader stands after an empty line. -/
structure Reader.Waiting (reader : Reader) : Prop where
  afterReturn : reader.afterReturn = false
  line : reader.line = []
  data : reader.data = []
  type : reader.type = []

theorem Reader.Waiting.start : ({} : Reader).Waiting := ⟨rfl, rfl, rfl, rfl⟩

/-- What a writer puts on the stream: the payload of an event, or a comment. -/
inductive Frame
  | message (payload : List Char)
  | comment (text : List Char)

/-- What the writer chose. -/
def Frame.text : Frame → List Char
  | .message payload => payload
  | .comment text => text

/-- The frame as it is written, with an empty line after it. -/
def Frame.chars : Frame → List Char
  | .message payload => ['d', 'a', 't', 'a', ':', ' '] ++ payload ++ ['\n', '\n']
  | .comment text => [':'] ++ text ++ ['\n', '\n']

def Frame.payload? : Frame → Option (List Char)
  | .message payload => some payload
  | .comment _ => none

def Frame.comment? : Frame → Option (List Char)
  | .message _ => none
  | .comment text => some text

namespace Reader

/-- A payload is dispatched as it is. -/
def deliver (reader : Reader) (payload : List Char) : Reader :=
  { reader with
    messages := reader.messages ++ [{ data := payload, lastEventId := reader.lastEventId }] }

/-- A comment is passed over. -/
def passOver (reader : Reader) (text : List Char) : Reader :=
  { reader with comments := reader.comments ++ [text] }

/-- Several payloads are dispatched, and several comments passed over. -/
def after (reader : Reader) (frames : List Frame) : Reader :=
  { reader with
    messages := reader.messages ++ (frames.filterMap Frame.payload?).map fun payload ↦
      { data := payload, lastEventId := reader.lastEventId }
    comments := reader.comments ++ frames.filterMap Frame.comment? }

theorem Waiting.deliver {reader : Reader} (h : reader.Waiting) (payload : List Char) :
    (reader.deliver payload).Waiting :=
  ⟨h.afterReturn, h.line, h.data, h.type⟩

theorem Waiting.passOver {reader : Reader} (h : reader.Waiting) (text : List Char) :
    (reader.passOver text).Waiting :=
  ⟨h.afterReturn, h.line, h.data, h.type⟩

theorem Waiting.after {reader : Reader} (h : reader.Waiting) (frames : List Frame) :
    (reader.after frames).Waiting :=
  ⟨h.afterReturn, h.line, h.data, h.type⟩

theorem after_message (reader : Reader) (payload : List Char) (frames : List Frame) :
    reader.after (.message payload :: frames) = (reader.deliver payload).after frames := by
  have hcomments : (Frame.message payload :: frames).filterMap Frame.comment? =
      frames.filterMap Frame.comment? := List.filterMap_cons_none rfl
  simp [after, deliver, Frame.payload?, hcomments]

theorem after_comment (reader : Reader) (text : List Char) (frames : List Frame) :
    reader.after (.comment text :: frames) = (reader.passOver text).after frames := by
  have hpayloads : (Frame.comment text :: frames).filterMap Frame.payload? =
      frames.filterMap Frame.payload? := List.filterMap_cons_none rfl
  simp [after, passOver, Frame.comment?, hpayloads]

end Reader

theorem withoutLastLineFeed_append (data : List Char) :
    withoutLastLineFeed (data ++ ['\n']) = data := by
  rw [withoutLastLineFeed, List.getLast?_concat, if_pos rfl, List.dropLast_concat]

/-- An empty line that comes after a whole line. -/
theorem read_lineFeed (reader : Reader) (hreturn : reader.afterReturn = false)
    (hline : reader.line = []) : reader.read ['\n'] = reader.dispatch :=
  read_line hreturn hline fun _ hc ↦ absurd hc List.not_mem_nil

/-- Assumes: the reader waits, and the payload has no line end in it. -/
theorem read_message {reader : Reader} (hwaiting : reader.Waiting) {payload : List Char}
    (h : ∀ c ∈ payload, ¬ IsLineEnd c) :
    reader.read (Frame.message payload).chars = reader.deliver payload := by
  have hline : ∀ c ∈ ['d', 'a', 't', 'a', ':', ' '] ++ payload, ¬ IsLineEnd c := by
    intro c hc
    rcases List.mem_append.mp hc with hname | hpayload
    · have hplain : ∀ d ∈ ['d', 'a', 't', 'a', ':', ' '], ¬ (d = '\n' ∨ d = '\r') :=
        EcmaText.forall_mem_of_all (by decide)
      exact hplain c hname
    · exact h c hpayload
  have hfield : reader.process (['d', 'a', 't', 'a', ':', ' '] ++ payload) =
      { reader with data := payload ++ ['\n'] } := by
    show { reader with data := reader.data ++ payload ++ ['\n'] } = _
    rw [hwaiting.data, List.nil_append]
  have hdispatch : ({ reader with data := payload ++ ['\n'] } : Reader).dispatch =
      reader.deliver payload := by
    have hpending : payload ++ ['\n'] ≠ [] := by simp
    rw [Reader.dispatch, if_neg hpending, Reader.deliver]
    simp only [withoutLastLineFeed_append, hwaiting.type, hwaiting.data, if_true]
  have hchars : (Frame.message payload).chars =
      (['d', 'a', 't', 'a', ':', ' '] ++ payload ++ ['\n']) ++ ['\n'] := by
    rw [Frame.chars, List.append_assoc _ ['\n']]
    rfl
  rw [hchars, read_append, read_line hwaiting.afterReturn hwaiting.line hline, hfield,
    read_lineFeed { reader with data := payload ++ ['\n'] } hwaiting.afterReturn hwaiting.line,
    hdispatch]

/-- Assumes: the reader waits, and the comment has no line end in it. -/
theorem read_comment {reader : Reader} (hwaiting : reader.Waiting) {text : List Char}
    (h : ∀ c ∈ text, ¬ IsLineEnd c) :
    reader.read (Frame.comment text).chars = reader.passOver text := by
  have hline : ∀ c ∈ ':' :: text, ¬ IsLineEnd c := by
    intro c hc
    rcases List.mem_cons.mp hc with rfl | htext
    · rintro (h | h) <;> cases h
    · exact h c htext
  have hprocess : reader.process (':' :: text) = reader.passOver text := rfl
  have hafter : (reader.passOver text).Waiting := hwaiting.passOver text
  have hdispatch : (reader.passOver text).dispatch = reader.passOver text := by
    rw [Reader.dispatch, if_pos hafter.data, ← hafter.type]
  have hchars : (Frame.comment text).chars = (':' :: text ++ ['\n']) ++ ['\n'] := by
    rw [Frame.chars, List.append_assoc _ ['\n']]
    rfl
  rw [hchars, read_append, read_line hwaiting.afterReturn hwaiting.line hline, hprocess,
    read_lineFeed _ hafter.afterReturn hafter.line, hdispatch]

/-- Assumes: the reader waits, and no frame has a line end in its text. Every payload is dispatched
as it is, in the order of the frames, and nothing else. -/
theorem read_frames {reader : Reader} (hwaiting : reader.Waiting) {frames : List Frame}
    (h : ∀ frame ∈ frames, ∀ c ∈ frame.text, ¬ IsLineEnd c) :
    reader.read (frames.flatMap Frame.chars) = reader.after frames := by
  induction frames generalizing reader with
  | nil =>
    show reader = { reader with
      messages := reader.messages ++ [], comments := reader.comments ++ [] }
    rw [List.append_nil, List.append_nil]
  | cons frame rest ih =>
    have hrest := fun later hlater ↦ h later (List.mem_cons_of_mem frame hlater)
    rw [List.flatMap_cons, read_append]
    cases frame with
    | message payload =>
      have hpayload : ∀ c ∈ payload, ¬ IsLineEnd c := h _ List.mem_cons_self
      rw [read_message hwaiting hpayload, ih (hwaiting.deliver payload) hrest,
        Reader.after_message]
    | comment text =>
      have htext : ∀ c ∈ text, ¬ IsLineEnd c := h _ List.mem_cons_self
      rw [read_comment hwaiting htext, ih (hwaiting.passOver text) hrest, Reader.after_comment]

/-! ### Streams that are cut off -/

theorem messages_prefix_dispatch (reader : Reader) :
    reader.messages <+: reader.dispatch.messages := by
  by_cases hdata : reader.data = []
  · have hsame : reader.messages = reader.dispatch.messages := by
      rw [Reader.dispatch, if_pos hdata]
    exact ⟨[], by rw [List.append_nil, hsame]⟩
  · rw [Reader.dispatch, if_neg hdata]
    exact List.prefix_append _ _

theorem messages_field (reader : Reader) (name value : List Char) :
    (reader.field name value).messages = reader.messages := by
  rw [Reader.field]
  split_ifs <;> rfl

theorem messages_prefix_endLine (reader : Reader) :
    reader.messages <+: reader.endLine.messages := by
  unfold Reader.endLine Reader.process
  split
  · exact messages_prefix_dispatch { reader with line := [] }
  · exact List.prefix_rfl
  · exact ⟨[], by rw [List.append_nil, messages_field]⟩

theorem messages_prefix_step (reader : Reader) (c : Char) :
    reader.messages <+: (reader.step c).messages := by
  rw [Reader.step]
  split_ifs
  · exact List.prefix_rfl
  · exact messages_prefix_endLine reader
  · exact messages_prefix_endLine { reader with afterReturn := false }
  · exact List.prefix_rfl

/-- What has been dispatched stays dispatched. -/
theorem messages_prefix_read (reader : Reader) (chars : List Char) :
    reader.messages <+: (reader.read chars).messages := by
  induction chars generalizing reader with
  | nil => exact List.prefix_rfl
  | cons c rest ih => exact (messages_prefix_step reader c).trans (ih (reader.step c))

theorem withoutByteOrderMark_prefix {first stream : List Char} (h : first <+: stream) :
    withoutByteOrderMark first <+: withoutByteOrderMark stream := by
  cases first with
  | nil => exact List.nil_prefix
  | cons c rest =>
    obtain ⟨later, rfl⟩ := h
    by_cases hmark : c = '\uFEFF'
    · rw [hmark]
      exact List.prefix_append rest later
    · have hsame : ∀ chars, withoutByteOrderMark (c :: chars) = c :: chars := fun chars ↦ by
        rw [withoutByteOrderMark]
        intro other heq
        exact hmark (List.cons.inj heq).1
      rw [List.cons_append, hsame, hsame]
      exact List.prefix_append (c :: rest) later

/-- A stream that is cut off dispatches the first events of the whole stream. -/
theorem messages_prefix_readStream {first stream : List Char} (h : first <+: stream) :
    (readStream first).messages <+: (readStream stream).messages := by
  obtain ⟨later, hlater⟩ := withoutByteOrderMark_prefix h
  rw [readStream, readStream, ← hlater, read_append]
  exact messages_prefix_read _ later

end FileForge.Foundation.EventSource
