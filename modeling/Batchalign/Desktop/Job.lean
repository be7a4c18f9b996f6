import Batchalign.Desktop.Request
import Batchalign.Engine.Reports
import Batchalign.Outcome

/-!
# Jobs of the desktop

`_run` takes the sources through the stages of a request, one pipeline at a time. While a
pipeline runs, its callbacks stage each outcome below the folder of the job and keep the books:
a source that fails is left behind, and the others go on to the next stage. What is left at the
end is published.

The job is cancelled from another thread, and the pipeline calls back from others again, so the
job is a system whose steps are what these threads do between two looks at the shared state. What
the loading of a pipeline, the dispatcher, the conversion of an input and the disk answer is
open.
-/

namespace Batchalign.Desktop

open Batchalign.Chat Batchalign.Cli Batchalign.Compare Batchalign.Engine Batchalign.Morphosyntax
  DispatchWindow Transition

section Definitions

/-- `api.JobState`. -/
inductive JobState where
  | pending
  | running
  | completed
  | failed
  | cancelled
deriving DecidableEq, Repr

/-- An event as the daemon sends it. -/
structure WireEvent where
  sourceId : String
  kind : ProgressKind
  task : Task
  completed : ℕ
  total : ℕ
  label : Option String
deriving DecidableEq, Repr

structure Artifact where
  sourceId : String
  path : PurePath
deriving DecidableEq, Repr

/-- An input of a pipeline. -/
inductive InputSpec where
  | media (path : PurePath) (language : Option String)
  | chat (path : PurePath)
  | paired (main gold : PurePath)
deriving DecidableEq, Repr

/-- What the conversion of an input reads. -/
inductive InputData where
  | media (path : PurePath) (language : Option String)
  | chat (path : PurePath) (content : Option Content)
  | paired (main : PurePath) (content : Option Content) (gold : PurePath)
      (goldContent : Option Content)

/-- The pipeline of a stage, how its dispatcher may answer, and the conversion of its inputs
under their source ids. -/
structure Setup (Choice : Type) where
  inner : PipelineInner
  answers : Choice → Task → Option Runner
  convert : InputData → String → Except String ConvertedInput

/-- The surroundings of a job: its own folder, the files that were there before, and what the
loading of a stage comes to. -/
structure Surroundings (Choice : Type) where
  workdir : PurePath
  disk : PurePath → Option Content
  load : ℕ → Except String (Setup Choice)

abbrev StagePool := Pool RunMode SourceJob ProgressEvent SourceResult String

/-- Where the thread of a job is. -/
inductive JobPhase (Choice : Type) where
  | head
  | running (setup : Setup Choice) (ids : List String) (pool : StagePool)
  | sweeping (rest : List String)
  | leaving
  | publishing (rest : List (String × PurePath))
  | ended

def JobPhase.isEnded {Choice : Type} : JobPhase Choice → Bool
  | .ended => true
  | _ => false

/-- The job, with the local variables of `_run`. -/
structure JobRun (Choice : Type) where
  state : JobState
  error : Option String
  result : Option (List Artifact)
  events : List WireEvent
  index : ℕ
  stages : List Stage
  current : List (String × PurePath)
  errors : List (String × String)
  pending : List (String × PurePath)
  metrics : List (String × PurePath)
  artifacts : List Artifact
  staged : List (PurePath × Content)
  published : List (PurePath × Content)
  phase : JobPhase Choice

variable {Choice : Type}

def WireEvent.isTerminal (event : WireEvent) : Prop :=
  event.kind = .stageFailed ∨ event.kind = .sourceCompleted

instance (event : WireEvent) : Decidable event.isTerminal :=
  inferInstanceAs (Decidable (_ ∨ _))

/-- `emit`. -/
def stepEvent (sid : String) (kind : ProgressKind) (step : DesktopStep) (label : Option String) :
    WireEvent :=
  let count := if kind = .stageInjected then 1 else 0
  ⟨sid, kind, step.recipe.task, count, count, label⟩

namespace JobRun

def goTo (job : JobRun Choice) (phase : JobPhase Choice) : JobRun Choice :=
  { job with phase := phase }

def cancel (job : JobRun Choice) : JobRun Choice := { job with state := .cancelled }

/-- `pending = {}`. -/
def clear (job : JobRun Choice) : JobRun Choice := { job with pending := [] }

def report (job : JobRun Choice) (event : WireEvent) : JobRun Choice :=
  { job with events := job.events ++ [event] }

/-- `errors[sid] = message`, and the event that says so. -/
def fail (job : JobRun Choice) (step : DesktopStep) (sid message : String) : JobRun Choice :=
  { job with
    errors := dictSet sid message job.errors
    events := job.events ++ [stepEvent sid .stageFailed step (some message)] }

def start (req : ValidRequest) (sources : List (String × PurePath)) : JobRun Choice where
  state := .running
  error := none
  result := none
  events := []
  index := 0
  stages := req.stages
  current := sources
  errors := []
  pending := []
  metrics := []
  artifacts := []
  staged := []
  published := []
  phase := .head

/-- The exception of a stage ends the job. -/
def raise (job : JobRun Choice) (step : DesktopStep) (message : String) : JobRun Choice :=
  let ended := { job with error := some message, phase := .ended }
  if job.state = .cancelled then ended
  else
    { ended with
      state := .failed
      events := job.events ++
        job.current.map fun entry => stepEvent entry.1 .stageFailed step (some message) }

end JobRun

section Inputs

variable [FileSystem]

/-- The input that a stage makes of a source. -/
def makeInput (step : DesktopStep) (source path : PurePath) (sid : String) :
    Except String InputSpec :=
  match step.recipe with
  | .transcribe => .ok (.media path step.language)
  | .compare => (gold step source sid).map fun reference => .paired path reference
  | .diarize | .align | .morphotag | .translate => .ok (.chat path)

/-- What a path holds. The folder of the job is written by the job alone. -/
def JobRun.read (surroundings : Surroundings Choice) (job : JobRun Choice) (path : PurePath) :
    Option Content :=
  (job.staged.lookup path).or (surroundings.disk path)

def InputSpec.data (read : PurePath → Option Content) : InputSpec → InputData
  | .media path language => .media path language
  | .chat path => .chat path (read path)
  | .paired path reference => .paired path (read path) reference (read reference)

/-- `SourceId::try_new` of the absolute path of a source. -/
def absoluteId (source : PurePath) : String := trim source.text

/-- The inputs of a stage, with their sources. A source without one fails. -/
def prepare (surroundings : Surroundings Choice) (sources : List (String × PurePath))
    (step : DesktopStep) (setup : Setup Choice) (job : JobRun Choice) :
    List (String × PurePath) → JobRun Choice × List (String × SourceInput)
  | [] => (job, [])
  | (sid, path) :: rest =>
      let source := (sources.lookup sid).getD path
      let started := job.report (stepEvent sid .stageStarted step none)
      match makeInput step source path sid with
      | .error message =>
          prepare surroundings sources step setup (started.fail step sid message) rest
      | .ok spec =>
          let id := absoluteId source
          let input : SourceInput := ⟨some id, setup.convert (spec.data (job.read surroundings)) id⟩
          let later := prepare surroundings sources step setup started rest
          (later.1, (sid, input) :: later.2)

end Inputs

section Callbacks

/-- The source that an id of the engine stands for. -/
def sourceOf (sources : List (String × PurePath)) (id : String) : Option String :=
  (sources.find? fun entry => entry.2.text = id).map Prod.fst

/-- The callback of a stage that an event is routed to, if its source has one. -/
def isRegistered (sources current : List (String × PurePath)) (id : String) : Bool :=
  current.any fun entry => ((sources.lookup entry.1).map absoluteId) = some id

/-- `payload.get("label") or "pipeline stage failed"`. -/
def failureLabel (event : ProgressEvent) : String :=
  if event.label = "" then "pipeline stage failed" else event.label

/-- `progress`. -/
def JobRun.progress (sources : List (String × PurePath)) (stage : Stage) (job : JobRun Choice)
    (event : ProgressEvent) : JobRun Choice :=
  match sourceOf sources event.sourceId with
  | none => job
  | some sid =>
      if event.kind = .sourceCompleted ∨ stage.finalStage = false ∧ event.kind = .stageInjected then
        job
      else
        let wire : WireEvent := ⟨sid, event.kind, stage.step.recipe.task, event.completed,
          event.total, some event.label⟩
        if event.kind = .stageFailed then
          { job.report wire with errors := dictSet sid (failureLabel event) job.errors }
        else job.report wire

/-- Where an outcome is staged. -/
def stagedPath (workdir : PurePath) (index : ℕ) (sid : String) : Except String PurePath :=
  match (PurePath.ofString sid).withSuffix ".cha" with
  | .ok name => .ok ((workdir.join ⟨false, [toString index]⟩).join name)
  | .error _ => .error (emptyName (.ofString sid))

/-- Where the table of a comparison lies. -/
def comparisonPath (path : PurePath) : PurePath :=
  (path.withSuffix ".compare.csv").toOption.getD path

variable [ChatFormat]

/-- The files that an outcome is staged in. -/
def stageOutcome (workdir : PurePath) (index : ℕ) (stage : Stage) (sid : String) (value : BAValue)
    (disk : Option String) : Except String (PurePath × List (PurePath × Content)) :=
  if value.isFailed then
    match value with
    | .failed _ error _ => .error error.display
    | _ => .error ""
  else
    match stagedPath workdir index sid, disk with
    | .error message, _ => .error message
    | .ok _, some message => .error message
    | .ok target, none =>
        (writeOutcome value target (stage.finalStage && stage.step.stripWordTiming)).map
          fun files => (target, files)

def putFiles (files : List (PurePath × Content)) (there : List (PurePath × Content)) :
    List (PurePath × Content) :=
  files.foldl (fun there file => dictSet file.1 file.2 there) there

/-- The outcome of a source is there for the next stage. -/
def JobRun.keep (job : JobRun Choice) (stage : Stage) (sid : String) (target : PurePath)
    (files : List (PurePath × Content)) : JobRun Choice :=
  let there := putFiles files job.staged
  let comparison := comparisonPath target
  { job with
    staged := there
    metrics := if (there.lookup comparison).isSome then dictSet sid comparison job.metrics
      else job.metrics
    pending := dictSet sid target job.pending
    events := if stage.finalStage then
      job.events ++ [stepEvent sid .stageInjected stage.step none] else job.events }

/-- `outcome`, with the exception that goes back to the pipeline. -/
def JobRun.outcome (workdir : PurePath) (sources : List (String × PurePath)) (stage : Stage)
    (job : JobRun Choice) (value : BAValue) (disk : Option String) :
    JobRun Choice × Option String :=
  match sourceOf sources value.sourceId with
  | none => (job, some ("KeyError: '" ++ value.sourceId ++ "'"))
  | some sid =>
      if job.state = .cancelled then (job, none)
      else
        match stageOutcome workdir job.index stage sid value disk with
        | .error message => (job.fail stage.step sid message, none)
        | .ok (target, files) => (job.keep stage sid target files, none)

end Callbacks

section Steps

variable [FileSystem] [ChatFormat] [ValidationGates]

/-- What the thread does next, or another thread in between. The answers of the disk are given
where it is asked. -/
inductive JobEvent (Choice : Type) where
  | cancel
  | enterStage
  | engine (event : RunEvent Choice (Option String))
  | returned
  | sweep
  | leave
  | publish (metrics target : Option String)

/-- The notice that a slot is about to give. -/
def nextNotice (pool : StagePool) (position : ℕ) : Option ProgressEvent :=
  (pool.runs.head?.bind fun run => run.slots[position]?).bind fun slot =>
    match slot.phase with
    | .running (notice :: _) _ => some notice
    | _ => none

/-- The outcome that a slot is about to hand over, if the callback is called with it. -/
def nextOutcome (pool : StagePool) (position : ℕ) : Option BAValue :=
  (pool.runs.head?.bind fun run => run.slots[position]?).bind fun slot =>
    match slot.phase with
    | .done (.ok value) => if value.isFailed then none else some value
    | _ => none

/-- The callbacks of one event of the pipeline. The answer of a delivery is that of the disk; the
callback makes of it what goes back to the pipeline. -/
def callback (surroundings : Surroundings Choice) (sources : List (String × PurePath))
    (stage : Stage) (job : JobRun Choice) (pool : StagePool) :
    RunEvent Choice (Option String) → JobRun Choice × RunEvent Choice (Option String)
  | .emit position =>
      match nextNotice pool position with
      | some notice =>
          (if isRegistered sources job.current notice.sourceId then
            job.progress sources stage notice else job, .emit position)
      | none => (job, .emit position)
  | .deliver position disk =>
      match nextOutcome pool position with
      | some value =>
          let called := job.outcome surroundings.workdir sources stage value disk
          (called.1, .deliver position called.2)
      | none => (job, .deliver position none)
  | event => (job, event)

/-- `_publish`. The disk may refuse the target, also because it lies outside the folder. -/
def JobRun.publishFile (job : JobRun Choice) (sid : String) (file target : PurePath)
    (disk : Option String) : JobRun Choice × Option String :=
  match disk, job.staged.lookup file with
  | some message, _ => (job, some message)
  | none, none => (job, some ("[Errno 2] No such file or directory: '" ++ file.text ++ "'"))
  | none, some content =>
      ({ job with
        published := dictSet target content job.published
        artifacts := job.artifacts ++ [⟨sid, target⟩] }, none)

/-- The files of a source, its table first. The error is that of the first one refused. -/
def JobRun.publishFiles (job : JobRun Choice) (sid : String) (staged target : PurePath)
    (metricsDisk targetDisk : Option String) : JobRun Choice × Option String :=
  match job.metrics.lookup sid with
  | none => job.publishFile sid staged target targetDisk
  | some file =>
      match job.publishFile sid file (comparisonPath target) metricsDisk with
      | (job, some message) => (job, some message)
      | (job, none) => job.publishFile sid staged target targetDisk

/-- One source of the loop that publishes. -/
def JobRun.publishSource (job : JobRun Choice) (step : DesktopStep) (sid : String)
    (staged target : PurePath) (metricsDisk targetDisk : Option String) : JobRun Choice :=
  match job.publishFiles sid staged target metricsDisk targetDisk with
  | (job, some message) => job.fail step sid message
  | (job, none) => job.report (stepEvent sid .sourceCompleted step none)

/-- The text of the errors of a job, if there are any. -/
def errorText (errors : List (String × String)) : Option String :=
  if errors = [] then none
  else some ("\n".intercalate (errors.map fun entry => entry.1 ++ ": " ++ entry.2))

/-- What is written into the job at the end. -/
def JobRun.finish (job : JobRun Choice) : JobRun Choice :=
  { job with
    result := some job.artifacts
    error := errorText job.errors
    state := if job.errors = [] then .completed else .failed
    phase := .ended }

/-- `step` after the loop: that of the last stage entered. -/
def lastStep (req : ValidRequest) : Option DesktopStep := req.steps.getLast?

def JobRun.nextStage (job : JobRun Choice) (stages : List Stage) : JobRun Choice :=
  { job with index := job.index + 1, stages := stages, current := job.pending, phase := .head }

/-- One step of a job. -/
def JobRun.step (surroundings : Surroundings Choice) (req : ValidRequest) (root : PurePath)
    (sources : List (String × PurePath)) (job : JobRun Choice) :
    JobEvent Choice → Option (JobRun Choice)
  | .cancel =>
      match job.phase with
      | .ended => none
      | _ => some job.cancel
  | .enterStage =>
      match job.phase, job.stages with
      | .head, [] => some (job.goTo .leaving)
      | .head, stage :: _ =>
          if job.state = .cancelled ∨ job.current = [] then some (job.goTo .leaving)
          else
            match surroundings.load job.index with
            | .error message => some (job.raise stage.step message)
            | .ok setup =>
                let prepared :=
                  prepare surroundings sources stage.step setup job.clear job.current
                let run := Run.start (.callback false)
                  (prepared.2.map fun entry => SourceJob.object entry.2)
                some (prepared.1.goTo (.running setup (keys prepared.2) ⟨req.workers, [run]⟩))
      | _, _ => none
  | .engine event =>
      match job.phase, job.stages with
      | .running setup ids pool, stage :: _ =>
          let called := callback surroundings sources stage job pool event
          ((pipelineRuns setup.inner setup.answers req.workers).step pool (.run 0 called.2)).map
            fun next => called.1.goTo (.running setup ids next)
      | _, _ => none
  | .returned =>
      match job.phase, job.stages with
      | .running _ _ pool, stage :: _ =>
          match pool.runs.head?.bind Engine.returned with
          | none => none
          | some (.ok _) => some (job.goTo (.sweeping (keys job.current)))
          | some (.error message) => some (job.raise stage.step message)
      | _, _ => none
  | .sweep =>
      match job.phase, job.stages with
      | .sweeping [], _ :: stages =>
          some (job.nextStage stages)
      | .sweeping (sid :: rest), stage :: _ =>
          let swept := job.goTo (.sweeping rest)
          if sid ∉ keys job.pending ∧ sid ∉ keys job.errors ∧ job.state ≠ .cancelled then
            some (swept.fail stage.step sid "pipeline returned no outcome")
          else some swept
      | _, _ => none
  | .leave =>
      match job.phase with
      | .leaving =>
          if job.state = .cancelled then some (job.goTo .ended)
          else some (job.goTo (.publishing job.current))
      | _ => none
  | .publish metricsDisk targetDisk =>
      match job.phase, lastStep req with
      | .publishing [], _ => some job.finish
      | .publishing ((sid, staged) :: rest), some step =>
          match outputRelative req.toDesktopRequest sid with
          | .error _ => some (job.raise step ("ValueError: " ++ emptyName (.ofString sid)))
          | .ok relative =>
              let target := (outputRoot req.toDesktopRequest root).join relative
              some ((job.goTo (.publishing rest)).publishSource step sid staged target metricsDisk
                targetDisk)
      | _, _ => none

/-- The runs of a job that was accepted. -/
def jobSystem (surroundings : Surroundings Choice) (req : ValidRequest) (root : PurePath)
    (sources : List (String × PurePath)) : System (JobRun Choice) (JobEvent Choice) where
  Initial job := job = .start req sources
  step := JobRun.step surroundings req root sources

end Steps

end Definitions

end Batchalign.Desktop
