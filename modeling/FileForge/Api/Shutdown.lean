import FileForge.Foundation.Draining

/-!
# How the server stops

The end of `src/server.ts`. A signal stops the server from accepting requests, lets those in flight
finish, closes the queue and the connections to Redis, and exits; a timer of ten seconds goes beside
it. `server_stops` is about every order of requests, signals, closed connections and timers: a
request is cut off by the timer only, and with a code other than 0. The stream of a job is a request
too: while a client listens, it is in flight.
-/

set_option autoImplicit false
set_option relaxedAutoImplicit false

namespace FileForge.Api.Shutdown

open Foundation.Draining Foundation.Execution

/-- What is in flight in the server. -/
inductive Work
  | request
  deriving DecidableEq

/-- `SHUTDOWN_TIMEOUT_MS` -/
def shutdownTimeoutMs : ℕ := 10000

/-- `shutdown`: the callback of `server.close` comes when the requests have ended, an error of it
included; then `queue.close`, `subscriber.quit`, `queueConnection.quit` and `redis.quit`, each of
which may fail. -/
def shutdown : Plan Work where
  stages := [.drain .request, .release, .release, .release, .release]
  timeout := shutdownTimeoutMs
  mayFail
    | .drain _ => false
    | .release => true

/-- The code of `process.exit`. A failure of Redis is logged and no more. The callback of a second
`server.close` has an error: the server was not running. -/
def exitCode (exit : Exit) : ℕ :=
  match exit.ending with
  | .timedOut => 1
  | .completed | .failed => if exit.index = 0 then 0 else 1

/-- A stage that fails comes after the requests have ended. -/
theorem drain_mem_take {passed : ℕ} {stage : Stage Work}
    (hstage : shutdown.stages[passed]? = some stage) (hfails : shutdown.mayFail stage = true) :
    .drain .request ∈ shutdown.stages.take passed := by
  cases passed with
  | zero =>
    obtain rfl := Option.some.inj hstage
    cases hfails
  | succ passed => exact List.mem_cons_self

/-- Whatever comes between the signals and the exit: no request is in flight at the exit, or ten
seconds have passed since the first signal and the code is 1. A code of 0 says that no request was
cut off, and after one signal only, a code of 1 that the time was up. With timers that are in time
the server is never there for longer than these ten seconds, at whose end its own timer stops it. -/
theorem server_stops {actions : List (Action Work)} {process : Process Work}
    (hrun : shutdown.system.run actions = some process) :
    (∀ exit ∈ process.exit, ∃ signalled ∈ process.signalledAt,
      (process.inFlight .request = 0 ∨
        exitCode exit = 1 ∧ signalled + shutdownTimeoutMs ≤ process.now) ∧
      (exitCode exit = 0 → process.inFlight .request = 0) ∧
      (process.shutdowns.length = 1 → exitCode exit = 1 →
        signalled + shutdownTimeoutMs ≤ process.now)) ∧
    (shutdown.system.Meets shutdown.Punctual actions → ∀ signalled ∈ process.signalledAt,
      process.now ≤ signalled + shutdownTimeoutMs ∧
      (process.exit = none → process.now = signalled + shutdownTimeoutMs →
        shutdown.step process (.fire 0) = some { process with exit := some ⟨.timedOut, 0⟩ })) := by
  refine ⟨fun exit hexit ↦ ?_, fun hpunctual signalled hsignalled ↦
    ⟨Plan.now_le_of_punctual hrun hpunctual hsignalled,
      fun hexit hnow ↦ Plan.fire_of_due hexit hsignalled (Nat.le_of_eq hnow.symm)⟩⟩
  obtain ⟨ending, hindex, signalled, hsignalled, hends⟩ := Plan.drained_run hrun hexit
  refine ⟨signalled, hsignalled, ?_⟩
  by_cases htimedOut : exit.ending = .timedOut
  · rw [htimedOut] at hends
    have hcode : exitCode exit = 1 := by rw [exitCode, htimedOut]
    exact ⟨.inr ⟨hcode, hends⟩, fun hzero ↦ by omega, fun _ _ ↦ hends⟩
  · have hnone : process.inFlight .request = 0 := by
      match hending : exit.ending with
      | .timedOut => exact absurd hending htimedOut
      | .completed =>
        rw [hending] at hends
        exact hends .request List.mem_cons_self
      | .failed =>
        rw [hending] at hends
        obtain ⟨stage, hstage, hfails, hdrained⟩ := hends
        exact hdrained .request (drain_mem_take hstage hfails)
    have hcode : exitCode exit = if exit.index = 0 then 0 else 1 := by
      match hending : exit.ending with
      | .timedOut => exact absurd hending htimedOut
      | .completed | .failed => rw [exitCode, hending]
    refine ⟨.inl hnone, fun _ ↦ hnone, fun hone hexitCode ↦ ?_⟩
    have hfirst : exit.index < 1 := hone ▸ (List.getElem?_eq_some_iff.mp hindex).1
    rw [hcode, if_pos (Nat.lt_one_iff.mp hfirst)] at hexitCode
    cases hexitCode

/-- A request that has not ended ten seconds after the signal. -/
def stuckRequest : List (Action Work) := [.arrive .request, .signal, .pass 10000, .fire 0]

theorem server_stops_stuckRequest :
    ∃ process, shutdown.system.run stuckRequest = some process ∧
      process.inFlight .request = 1 ∧ ∀ exit ∈ process.exit, ∃ signalled ∈ process.signalledAt,
        exitCode exit = 1 ∧ signalled + shutdownTimeoutMs ≤ process.now := by
  have hseen : (shutdown.system.run stuckRequest).map (fun process ↦ process.inFlight .request) =
      some 1 := by
    decide
  obtain ⟨process, hrun, hflight⟩ := Option.map_eq_some_iff.mp hseen
  refine ⟨process, hrun, hflight, fun exit hexit ↦ ?_⟩
  obtain ⟨signalled, hsignalled, hends, -⟩ := (server_stops hrun).1 exit hexit
  exact ⟨signalled, hsignalled, hends.resolve_left fun hnone ↦ by omega⟩

end FileForge.Api.Shutdown
