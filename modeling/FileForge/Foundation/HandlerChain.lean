import Mathlib.Data.Nat.Notation
import Mathlib.Data.List.Basic

/-!
# Chains of request handlers

A web framework that runs its handlers in registration order. A handler either answers a request or
hands it on, and may change the state that the requests share (`Handler`). `dispatch` runs a chain
on one request and stops at the first answer; `stateAfter` runs one handler on a sequence of
requests, one after the other.

`dispatch_append_of_ignored` skips the handlers a request passes through untouched, and
`stateAfter_induction` is the invariant rule for a sequence of requests, with a count of the
requests served.

A route is recognised by its path segments (`pathMatches`): a literal segment up to letter case, a
parameter for one nonempty segment, and a wildcard for everything that is left. One empty segment at
the end, from a trailing slash, is accepted.
-/

set_option autoImplicit false
set_option relaxedAutoImplicit false

namespace FileForge.Foundation.HandlerChain

/-! ### Handlers -/

/-- A handler answers a request or hands it on (`none`), and may change the shared state. -/
abbrev Handler (State Request Response : Type*) := Request → State → Option Response × State

section Chains

variable {State Request Response : Type*}

/-- The chain answers with the first handler that answers. -/
def dispatch : List (Handler State Request Response) → Handler State Request Response
  | [], _, state => (none, state)
  | handler :: rest, request, state =>
    match handler request state with
    | (some response, state') => (some response, state')
    | (none, state') => dispatch rest request state'

/-- The handler hands the request on and leaves the state alone. -/
def Ignores (handler : Handler State Request Response) (request : Request) : Prop :=
  ∀ state, handler request state = (none, state)

/-- The shared state after a sequence of requests. -/
def stateAfter (handler : Handler State Request Response) (requests : List Request)
    (state : State) : State :=
  requests.foldl (fun state request ↦ (handler request state).2) state

/-- Assumes: a first handler that answers. The chain answers with it. -/
theorem dispatch_cons_answer {handler : Handler State Request Response}
    {rest : List (Handler State Request Response)} {request : Request} {state state' : State}
    {response : Response} (h : handler request state = (some response, state')) :
    dispatch (handler :: rest) request state = (some response, state') := by
  simp only [dispatch, h]

/-- Assumes: a first handler that hands the request on. The rest of the chain goes on from the
state it left. -/
theorem dispatch_cons_pass {handler : Handler State Request Response}
    {rest : List (Handler State Request Response)} {request : Request} {state state' : State}
    (h : handler request state = (none, state')) :
    dispatch (handler :: rest) request state = dispatch rest request state' := by
  simp only [dispatch, h]

/-- Assumes: a front of the chain whose handlers all ignore the request. Only the rest counts. -/
theorem dispatch_append_of_ignored {front : List (Handler State Request Response)}
    (rest : List (Handler State Request Response)) {request : Request}
    (hfront : ∀ handler ∈ front, Ignores handler request) (state : State) :
    dispatch (front ++ rest) request state = dispatch rest request state := by
  induction front with
  | nil => rfl
  | cons handler front ih =>
    have hfirst : handler request state = (none, state) := hfront handler List.mem_cons_self state
    rw [List.cons_append, dispatch_cons_pass hfirst]
    exact ih fun other hother ↦ hfront other (List.mem_cons_of_mem handler hother)

/-- The invariant rule for a sequence of requests. Assumes: a property of the number of requests
served and the state, kept by every request of the sequence. -/
theorem stateAfter_induction {handler : Handler State Request Response}
    {invariant : ℕ → State → Prop} {requests : List Request}
    (hstep : ∀ served state, ∀ request ∈ requests, invariant served state →
      invariant (served + 1) (handler request state).2) :
    ∀ {served : ℕ} {state : State}, invariant served state →
      invariant (served + requests.length) (stateAfter handler requests state) := by
  induction requests with
  | nil => exact fun h ↦ h
  | cons request rest ih =>
    intro served state h
    have hnext := hstep served state request List.mem_cons_self h
    have hrest := ih (fun served state other hother ↦
      hstep served state other (List.mem_cons_of_mem request hother)) hnext
    have hlength : served + (request :: rest).length = served + 1 + rest.length := by
      rw [List.length_cons]
      omega
    rw [hlength]
    exact hrest

end Chains

/-! ### Route patterns -/

/-- One part of a route's path. -/
inductive PathPart
  | literal (text : String)
  | param
  | splat
  deriving DecidableEq, Repr

/-- The segment with its letters in lower case. -/
def foldCase (segment : String) : List Char := segment.toList.map Char.toLower

/-- The path, given by its segments, has the shape of the route. -/
def pathMatches : List PathPart → List String → Bool
  | [], segments => segments == [] || segments == [""]
  | .literal text :: parts, segment :: segments =>
    foldCase segment == text.toList && pathMatches parts segments
  | .param :: parts, segment :: segments => segment != "" && pathMatches parts segments
  | [.splat], segments => segments != [] && segments != [""]
  | .splat :: _ :: _, _ => false
  | _ :: _, [] => false

end FileForge.Foundation.HandlerChain
