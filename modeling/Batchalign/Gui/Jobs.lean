import Batchalign.Gui.App

/-!
# The jobs behind the app

What the daemon has told the app about a job stays true: a source that was completed stays so, and
so does a job. Both are known to the app only through the worker of the job, which has published
what it reports complete.
-/

namespace Batchalign.Gui

open Batchalign.Cli Batchalign.Compare Batchalign.Desktop Batchalign.Engine Batchalign.Morphosyntax
  JsonText Transition

section Definitions

variable {Choice : Type} [PythonText] [ChatFormat] [ValidationGates]

def DaemonJob.system (job : DaemonJob Choice) : System (Bridge Choice) (BridgeEvent Choice) :=
  letI := job.desk
  bridgeSystem job.surroundings job.request job.root job.sources

/-- The daemon has accepted the job and runs it. -/
structure DaemonJob.Ran (job : DaemonJob Choice) : Prop where
  accepted :
    letI := job.desk
    Desktop.sources job.request.toDesktopRequest = .ok (job.root, job.sources)
  reachable : job.system.Reachable job.bridge

/-- The worker has reported that this source is complete. -/
def DaemonJob.Completed (job : DaemonJob Choice) (sid : String) : Prop :=
  ∃ event ∈ job.bridge.worker.events, event.kind = .sourceCompleted ∧ event.sourceId = sid

/-- The worker has completed. -/
def DaemonJob.Finished (job : DaemonJob Choice) : Prop :=
  job.bridge.worker.phase.isEnded = true ∧ job.bridge.worker.state = .completed

/-- The same job at a later time. -/
structure DaemonJob.Later (job later : DaemonJob Choice) : Prop where
  request : later.request = job.request
  completed : ∀ sid, job.Completed sid → later.Completed sid
  finished : job.Finished → later.Finished

/-- What the environment of a job has to keep to, for its outcomes to be those of its sources. -/
structure LawfulDesk (desk : FileSystem) (surroundings : Surroundings Choice) : Prop where
  paths :
    letI := desk
    LawfulPaths
  setups : ∀ index setup, surroundings.load index = .ok setup → LawfulSetup setup

/-- The outcome of a source lies at its target, and is what the stages make of its own file. -/
def DaemonJob.Published (job : DaemonJob Choice) (sid : String) : Prop :=
  letI := job.desk
  Desktop.Published job.surroundings job.request job.root job.sources job.bridge.worker sid

end Definitions

section Jobs

variable {Choice : Type} [PythonText] [ChatFormat] [ValidationGates]
  {job next later : DaemonJob Choice} {desk : FileSystem} {surroundings : Surroundings Choice}
  {req : DesktopRequest} {event : BridgeEvent Choice} {sid : String}

omit [PythonText] [ChatFormat] [ValidationGates] in
theorem DaemonJob.Later.refl (job : DaemonJob Choice) : job.Later job :=
  ⟨rfl, fun _ completed => completed, fun finished => finished⟩

theorem startDesktopJob_ran (starts : startDesktopJob desk surroundings req = some job) :
    job.Ran ∧ job.request.toDesktopRequest = req ∧ job.desk = desk ∧
      job.surroundings = surroundings := by
  unfold startDesktopJob at starts
  rcases Option.bind_eq_some_iff.mp starts with ⟨valid, isValid, starts⟩
  unfold validate at isValid
  split_ifs at isValid with known
  cases isValid
  split at starts
  · next root sources accepted =>
      cases starts
      exact ⟨⟨accepted, .initial rfl⟩, rfl, rfl, rfl⟩
  · cases starts

theorem DaemonJob.Ran.taken (ran : job.Ran) (taken : ℕ) : ({ job with taken := taken }).Ran :=
  ⟨ran.accepted, ran.reachable⟩

theorem DaemonJob.step_later (steps : job.step event = some next) :
    job.Later next ∧ (job.Ran → next.Ran) ∧ next.desk = job.desk ∧
      next.surroundings = job.surroundings := by
  let desk := job.desk
  rcases Option.map_eq_some_iff.mp steps with ⟨bridge, moves, rfl⟩
  have ran : job.Ran → ({ job with bridge := bridge } : DaemonJob Choice).Ran := by
    intro ran
    have runs : job.system.run job.bridge [event] = some bridge := by
      simpa [DaemonJob.system, bridgeSystem] using moves
    exact ⟨ran.accepted, ran.reachable.run runs⟩
  refine ⟨⟨rfl, ?_, ?_⟩, ran, rfl, rfl⟩
  · rintro sid ⟨reported, isReported, known⟩
    rcases worker_of_step moves with same | ⟨event, works, workerSteps⟩
    · exact ⟨reported, by simpa [same] using isReported, known⟩
    · exact ⟨reported, (stepsTo works workerSteps).events.subset isReported, known⟩
  · intro finished
    rcases worker_of_step moves with same | ⟨event, _, workerSteps⟩
    · simpa [DaemonJob.Finished, same] using finished
    · simp [JobRun.step_ended finished.1] at workerSteps

end Jobs

end Batchalign.Gui
