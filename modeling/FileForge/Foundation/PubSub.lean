import Mathlib.Data.Finset.Erase
import Mathlib.Data.Finset.Insert
import Mathlib.Data.List.Induction

/-!
# A subscriber connection of a publish/subscribe server

One connection in subscriber mode. The client sends commands (`send`), the server runs them in the
order in which they were sent (`serve`), and everything the server sends back, replies and messages
alike, is read in the order in which it was sent (`read`). The server keeps one set of channels for
the connection: `SUBSCRIBE` adds to it and `UNSUBSCRIBE` removes from it, whoever sent the command.
A message goes to the connection when its channel is in the set at the moment of publication
(`publish`).

`Covered` says that a channel stays in the set as long as no further command is sent, and `Awaited`
that the command with a ticket will put it there. `Covered.publish` is what coverage gives: every
message of the channel is sent to the connection. The only command that takes coverage away is the
`UNSUBSCRIBE` of the same channel (`Covered.send`).
-/

set_option autoImplicit false
set_option relaxedAutoImplicit false

namespace FileForge.Foundation.PubSub

inductive Command (Channel : Type*)
  | subscribe (channel : Channel)
  | unsubscribe (channel : Channel)
  deriving DecidableEq, Repr

/-- What the server sends: the reply to a command, or a message. -/
inductive Incoming (Channel Payload Ticket : Type*)
  | reply (ticket : Ticket) (command : Command Channel)
  | message (channel : Channel) (payload : Payload)
  deriving DecidableEq, Repr

/-- The subscribed channels, the commands that the server has not run yet, and what it has sent and
the client has not read yet. -/
structure Connection (Channel Payload Ticket : Type*) where
  channels : Finset Channel
  sent : List (Ticket × Command Channel)
  inbound : List (Incoming Channel Payload Ticket)

namespace Connection

variable {Channel Payload Ticket : Type*}

/-- A connection before its first command. -/
def fresh : Connection Channel Payload Ticket := ⟨∅, [], []⟩

/-- The client sends a command. -/
def send (connection : Connection Channel Payload Ticket) (ticket : Ticket)
    (command : Command Channel) : Connection Channel Payload Ticket :=
  { connection with sent := connection.sent ++ [(ticket, command)] }

/-- The client reads what was sent first. -/
def read (connection : Connection Channel Payload Ticket) :
    Option (Incoming Channel Payload Ticket × Connection Channel Payload Ticket) :=
  match connection.inbound with
  | [] => none
  | first :: later => some (first, { connection with inbound := later })

section Server

variable [DecidableEq Channel]

/-- What a command makes of the set of channels. -/
def obey (channels : Finset Channel) : Command Channel → Finset Channel
  | .subscribe channel => insert channel channels
  | .unsubscribe channel => channels.erase channel

/-- The server runs the oldest command and replies to it. -/
def serve (connection : Connection Channel Payload Ticket) :
    Option ((Ticket × Command Channel) × Connection Channel Payload Ticket) :=
  match connection.sent with
  | [] => none
  | (ticket, command) :: later =>
    some ((ticket, command),
      { channels := obey connection.channels command
        sent := later
        inbound := connection.inbound ++ [.reply ticket command] })

/-- Someone publishes a message. -/
def publish (connection : Connection Channel Payload Ticket) (channel : Channel)
    (payload : Payload) : Connection Channel Payload Ticket :=
  if channel ∈ connection.channels then
    { connection with inbound := connection.inbound ++ [.message channel payload] }
  else connection

end Server

/-! ### What a command and a reply say -/

theorem read_eq_some {connection after : Connection Channel Payload Ticket}
    {first : Incoming Channel Payload Ticket} (h : connection.read = some (first, after)) :
    connection.inbound = first :: after.inbound ∧ after.channels = connection.channels ∧
      after.sent = connection.sent := by
  unfold read at h
  split at h
  · cases h
  · rename_i head later hinbound
    simp only [Option.some.injEq, Prod.mk.injEq] at h
    obtain ⟨rfl, rfl⟩ := h
    exact ⟨hinbound, rfl, rfl⟩

section Server

variable [DecidableEq Channel]

theorem serve_eq_some {connection after : Connection Channel Payload Ticket} {ticket : Ticket}
    {command : Command Channel} (h : connection.serve = some ((ticket, command), after)) :
    connection.sent = (ticket, command) :: after.sent ∧
      after.channels = obey connection.channels command ∧
      after.inbound = connection.inbound ++ [.reply ticket command] := by
  unfold serve at h
  split at h
  · cases h
  · rename_i headTicket headCommand later hsent
    simp only [Option.some.injEq, Prod.mk.injEq] at h
    obtain ⟨⟨rfl, rfl⟩, rfl⟩ := h
    exact ⟨hsent, rfl, rfl⟩

theorem publish_channels (connection : Connection Channel Payload Ticket) (channel : Channel)
    (payload : Payload) : (connection.publish channel payload).channels = connection.channels := by
  unfold publish
  split_ifs <;> rfl

theorem publish_sent (connection : Connection Channel Payload Ticket) (channel : Channel)
    (payload : Payload) : (connection.publish channel payload).sent = connection.sent := by
  unfold publish
  split_ifs <;> rfl

/-- A message in flight after a publication was in flight before, or is the one published. -/
theorem mem_publish_inbound {connection : Connection Channel Payload Ticket} {channel : Channel}
    {payload : Payload} {item : Incoming Channel Payload Ticket}
    (h : item ∈ (connection.publish channel payload).inbound) :
    item ∈ connection.inbound ∨ item = .message channel payload := by
  unfold publish at h
  split_ifs at h
  · simpa using h
  · exact Or.inl h

end Server

/-! ### Coverage -/

/-- The channel is subscribed and no command that would end that has been sent. -/
def Covered (connection : Connection Channel Payload Ticket) (channel : Channel) : Prop :=
  channel ∈ connection.channels ∧ ∀ ticket, (ticket, .unsubscribe channel) ∉ connection.sent

/-- No command that would undo the `SUBSCRIBE` with the ticket has been sent after it. -/
def Awaited (connection : Connection Channel Payload Ticket) (ticket : Ticket)
    (channel : Channel) : Prop :=
  ∀ earlier later, connection.sent = earlier ++ (ticket, .subscribe channel) :: later →
    ∀ other, (other, .unsubscribe channel) ∉ later

/-- Coverage survives every command but the `UNSUBSCRIBE` of the channel. -/
theorem Covered.send {connection : Connection Channel Payload Ticket} {channel : Channel}
    (h : connection.Covered channel) (ticket : Ticket) {command : Command Channel}
    (hcommand : command ≠ .unsubscribe channel) :
    (connection.send ticket command).Covered channel := by
  refine ⟨h.1, fun other hmem ↦ ?_⟩
  rw [Connection.send, List.mem_append, List.mem_singleton, Prod.mk.injEq] at hmem
  rcases hmem with hsent | ⟨-, hlast⟩
  · exact h.2 other hsent
  · exact hcommand hlast.symm

theorem Covered.read {connection after : Connection Channel Payload Ticket} {channel : Channel}
    {first : Incoming Channel Payload Ticket} (h : connection.Covered channel)
    (hread : connection.read = some (first, after)) : after.Covered channel := by
  obtain ⟨-, hchannels, hsent⟩ := read_eq_some hread
  rw [Covered, hchannels, hsent]
  exact h

theorem Awaited.read {connection after : Connection Channel Payload Ticket} {channel : Channel}
    {ticket : Ticket} {first : Incoming Channel Payload Ticket}
    (h : connection.Awaited ticket channel) (hread : connection.read = some (first, after)) :
    after.Awaited ticket channel := by
  obtain ⟨-, -, hsent⟩ := read_eq_some hread
  rw [Awaited, hsent]
  exact h

/-- A command in the queue after one more was sent: it is the last, or what follows it ends with the
new one. -/
theorem send_split {connection : Connection Channel Payload Ticket} {ticket : Ticket}
    {command : Command Channel} {earlier later : List (Ticket × Command Channel)}
    {item : Ticket × Command Channel}
    (h : (connection.send ticket command).sent = earlier ++ item :: later) :
    later = [] ∨ ∃ before, later = before ++ [(ticket, command)] ∧
      connection.sent = earlier ++ item :: before := by
  rw [Connection.send] at h
  induction later using List.reverseRecOn with
  | nil => exact Or.inl rfl
  | append_singleton before last _ =>
    rw [← List.cons_append, ← List.append_assoc] at h
    obtain ⟨hsent, hlast⟩ := List.append_inj' h rfl
    rw [List.singleton_inj] at hlast
    exact Or.inr ⟨before, by rw [hlast], hsent⟩

/-- Awaiting survives every command but the `UNSUBSCRIBE` of the channel. -/
theorem Awaited.send {connection : Connection Channel Payload Ticket} {channel : Channel}
    {ticket : Ticket} (h : connection.Awaited ticket channel) (sender : Ticket)
    {command : Command Channel} (hcommand : command ≠ .unsubscribe channel) :
    (connection.send sender command).Awaited ticket channel := by
  intro earlier later hsplit other hmem
  rcases send_split hsplit with rfl | ⟨before, rfl, hsent⟩
  · cases hmem
  · rw [List.mem_append, List.mem_singleton, Prod.mk.injEq] at hmem
    rcases hmem with hbefore | ⟨-, hlast⟩
    · exact h earlier before hsent other hbefore
    · exact hcommand hlast.symm

/-- A `SUBSCRIBE` that has just been sent, under a ticket that no sent command has. -/
theorem awaited_of_send {connection : Connection Channel Payload Ticket} {ticket : Ticket}
    (hfresh : ∀ command, (ticket, command) ∉ connection.sent) (channel : Channel) :
    (connection.send ticket (.subscribe channel)).Awaited ticket channel := by
  intro earlier later hsplit other hmem
  rcases send_split hsplit with rfl | ⟨before, rfl, hsent⟩
  · cases hmem
  · refine absurd ?_ (hfresh (.subscribe channel))
    rw [hsent]
    exact List.mem_append_right _ List.mem_cons_self

section Server

variable [DecidableEq Channel]

/-- Every message of a covered channel is sent to the connection. -/
theorem Covered.publish {connection : Connection Channel Payload Ticket} {channel : Channel}
    (h : connection.Covered channel) (payload : Payload) :
    (connection.publish channel payload).inbound =
      connection.inbound ++ [.message channel payload] := by
  rw [Connection.publish, if_pos h.1]

theorem Covered.of_publish {connection : Connection Channel Payload Ticket} {channel : Channel}
    (h : connection.Covered channel) (other : Channel) (payload : Payload) :
    (connection.publish other payload).Covered channel := by
  rw [Covered, publish_channels, publish_sent]
  exact h

theorem Awaited.of_publish {connection : Connection Channel Payload Ticket} {channel : Channel}
    {ticket : Ticket} (h : connection.Awaited ticket channel) (other : Channel)
    (payload : Payload) : (connection.publish other payload).Awaited ticket channel := by
  rw [Awaited, publish_sent]
  exact h

theorem Covered.serve {connection after : Connection Channel Payload Ticket} {channel : Channel}
    {ticket : Ticket} {command : Command Channel} (h : connection.Covered channel)
    (hserve : connection.serve = some ((ticket, command), after)) : after.Covered channel := by
  obtain ⟨hsent, hchannels, -⟩ := serve_eq_some hserve
  have hlater : ∀ other, (other, .unsubscribe channel) ∉ after.sent := by
    intro other hmem
    refine h.2 other ?_
    rw [hsent]
    exact List.mem_cons_of_mem _ hmem
  refine ⟨?_, hlater⟩
  rw [hchannels]
  cases command with
  | subscribe other => exact Finset.mem_insert_of_mem h.1
  | unsubscribe other =>
    refine Finset.mem_erase.mpr ⟨?_, h.1⟩
    rintro rfl
    refine h.2 ticket ?_
    rw [hsent]
    exact List.mem_cons_self

/-- The awaited command has run: the channel is covered. -/
theorem Awaited.covered_of_serve {connection after : Connection Channel Payload Ticket}
    {channel : Channel} {ticket : Ticket} (h : connection.Awaited ticket channel)
    (hserve : connection.serve = some ((ticket, .subscribe channel), after)) :
    after.Covered channel := by
  obtain ⟨hsent, hchannels, -⟩ := serve_eq_some hserve
  refine ⟨?_, h [] after.sent hsent⟩
  rw [hchannels]
  exact Finset.mem_insert_self _ _

theorem Awaited.serve {connection after : Connection Channel Payload Ticket} {channel : Channel}
    {ticket : Ticket} {served : Ticket × Command Channel} (h : connection.Awaited ticket channel)
    (hserve : connection.serve = some (served, after)) : after.Awaited ticket channel := by
  obtain ⟨hsent, -, -⟩ := @serve_eq_some _ _ _ _ _ _ served.1 served.2 hserve
  intro earlier later hsplit
  refine h (served :: earlier) later ?_
  rw [hsent, hsplit]
  rfl

end Server

end Connection

end FileForge.Foundation.PubSub
