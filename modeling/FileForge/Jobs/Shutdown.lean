import FileForge.Foundation.Draining

/-!
# How the worker stops

The end of `src/jobs/worker.ts`. A signal closes the worker, which waits for the jobs in flight, then
the worker of the maintenance queue, which goes on taking jobs until then, then the queue and the
connection. A failure of any of them ends the process with the code 1, and so does a timer of thirty
seconds. `worker_stops` is about every order of jobs, signals, closed workers and timers.
-/

set_option autoImplicit false
set_option relaxedAutoImplicit false

namespace FileForge.Jobs.Shutdown

open Foundation.Draining Foundation.Execution

/-- What is in flight in the worker. -/
inductive Work
  | job
  | maintenance
  deriving DecidableEq

/-- `SHUTDOWN_TIMEOUT_MS` -/
def shutdownTimeoutMs : ℕ := 30000

/-- `shutdown`: `worker.close`, `maintenanceWorker.close`, `maintenanceQueue.close` and
`connection.quit`. -/
def shutdown : Plan Work where
  stages := [.drain .job, .drain .maintenance, .release, .release]
  timeout := shutdownTimeoutMs
  mayFail _ := true

/-- The code of `process.exit`. -/
def exitCode (exit : Exit) : ℕ :=
  match exit.ending with
  | .completed => 0
  | .failed | .timedOut => 1

/-- The stage that waits for the work. -/
def Work.stage : Work → ℕ
  | .job => 0
  | .maintenance => 1

theorem drain_mem_take {work : Work} {passed : ℕ} (h : work.stage < passed) :
    .drain work ∈ shutdown.stages.take passed := by
  refine List.mem_of_getElem? (i := work.stage) ?_
  rw [List.getElem?_take_of_lt h]
  cases work <;> rfl

/-- Whatever comes between the signals and the exit: with the code 0 no job and no sweep was cut
off. What was cut off was so with the code 1, thirty seconds after the first signal, or because a
close failed that came no later than its own. With timers that are in time the worker is never there
for longer than these thirty seconds, at whose end its own timer stops it. -/
theorem worker_stops {actions : List (Action Work)} {process : Process Work}
    (hrun : shutdown.system.run actions = some process) :
    (∀ exit ∈ process.exit, ∃ failing, process.shutdowns[exit.index]? = some failing ∧
      ∃ signalled ∈ process.signalledAt,
        (exitCode exit = 0 → ∀ work, process.inFlight work = 0) ∧
        ∀ work, process.inFlight work ≠ 0 → exitCode exit = 1 ∧
          (signalled + shutdownTimeoutMs ≤ process.now ∨
            exit.ending = .failed ∧ failing.passed ≤ work.stage)) ∧
    (shutdown.system.Meets shutdown.Punctual actions → ∀ signalled ∈ process.signalledAt,
      process.now ≤ signalled + shutdownTimeoutMs ∧
      (process.exit = none → process.now = signalled + shutdownTimeoutMs →
        shutdown.step process (.fire 0) = some { process with exit := some ⟨.timedOut, 0⟩ })) := by
  refine ⟨fun exit hexit ↦ ?_, fun hpunctual signalled hsignalled ↦
    ⟨Plan.now_le_of_punctual hrun hpunctual hsignalled,
      fun hexit hnow ↦ Plan.fire_of_due hexit hsignalled (Nat.le_of_eq hnow.symm)⟩⟩
  obtain ⟨failing, hindex, signalled, hsignalled, hends⟩ := Plan.drained_run hrun hexit
  refine ⟨failing, hindex, signalled, hsignalled, ?_⟩
  match hending : exit.ending with
  | .completed =>
    rw [hending] at hends
    have hnone : ∀ work, process.inFlight work = 0 := fun work ↦
      hends work (by cases work <;> decide)
    exact ⟨fun _ ↦ hnone, fun work hwork ↦ absurd (hnone work) hwork⟩
  | .failed =>
    rw [hending] at hends
    obtain ⟨stage, -, -, hdrained⟩ := hends
    have hcode : exitCode exit = 1 := by rw [exitCode, hending]
    refine ⟨fun hzero ↦ by omega, fun work hwork ↦ ⟨hcode, .inr ⟨rfl, ?_⟩⟩⟩
    by_contra hlate
    exact hwork (hdrained work (drain_mem_take (Nat.lt_of_not_le hlate)))
  | .timedOut =>
    rw [hending] at hends
    have hcode : exitCode exit = 1 := by rw [exitCode, hending]
    exact ⟨fun hzero ↦ by omega, fun work _ ↦ ⟨hcode, .inl hends⟩⟩

/-- A sweep that is taken while the worker waits for its job, and a close that fails during it. -/
def sweepCutOff : List (Action Work) :=
  [.arrive .job, .signal, .arrive .maintenance, .finish .job, .resolve 0, .reject 0]

theorem worker_stops_sweepCutOff :
    ∃ process, shutdown.system.run sweepCutOff = some process ∧
      process.inFlight .maintenance = 1 ∧ ∀ exit ∈ process.exit,
        exitCode exit = 1 ∧ ∃ failing, process.shutdowns[exit.index]? = some failing := by
  have hseen : (shutdown.system.run sweepCutOff).map
      (fun process ↦ process.inFlight .maintenance) = some 1 := by
    decide
  obtain ⟨process, hrun, hflight⟩ := Option.map_eq_some_iff.mp hseen
  refine ⟨process, hrun, hflight, fun exit hexit ↦ ?_⟩
  obtain ⟨failing, hfailing, _, -, -, hcut⟩ := (worker_stops hrun).1 exit hexit
  exact ⟨(hcut .maintenance (by omega)).1, failing, hfailing⟩

end FileForge.Jobs.Shutdown
