import FileForge.Shared.Contract

/-!
# Job events on their channels

`src/jobs/events.ts`: every job has a channel of its own (`channelFor_injective`), an event is
published there as JSON (`publication`), and the listener of a subscription passes on the valid
events of its channel (`handler`). `handler_publication` is one message from end to end: a listener
hears a published event exactly when it is valid and of its own job.
-/

set_option autoImplicit false
set_option relaxedAutoImplicit false

namespace FileForge.Jobs.Events

open Foundation.JsonValue Shared.Contract

def channelPrefix : String := "job-events:"

def channelFor (jobId : String) : String := channelPrefix ++ jobId

theorem channelFor_injective {jobId other : String} (h : channelFor jobId = channelFor other) :
    jobId = other := by
  have htext : channelPrefix.toList ++ jobId.toList = channelPrefix.toList ++ other.toList := by
    rw [← String.toList_append, ← String.toList_append]
    exact congrArg String.toList h
  exact String.toList_injective (List.append_cancel_left htext)

/-- What `publishJobEvent` hands to `PUBLISH`: the channel and the written event. -/
def publication (event : JobEvent) : String × Json := (channelFor event.jobId, event.toJson)

/-- The listener that `subscribeToJob` registers: the event it passes on, if any. A payload that is
not JSON is `none`. -/
def handler (jobId incoming : String) (payload : Option Json) : Option JobEvent :=
  if incoming ≠ channelFor jobId then none
  else payload.bind JobEventSchema.safeParse

/-- A listener hears a published event when it is of its job and valid. -/
theorem handler_publication (jobId : String) (event : JobEvent) :
    handler jobId (publication event).1 (some (publication event).2) =
      if event.jobId = jobId ∧ event.Valid then some event else none := by
  by_cases hjob : event.jobId = jobId
  · simp [handler, publication, hjob, safeParse_toJson]
  · have hchannel : channelFor event.jobId ≠ channelFor jobId := fun h ↦
      hjob (channelFor_injective h)
    simp [handler, publication, hjob, hchannel]

end FileForge.Jobs.Events
