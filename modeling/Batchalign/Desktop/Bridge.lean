import Batchalign.Desktop.Accepted
import Batchalign.Library.JsonText
import Batchalign.Library.LineBuffer

/-!
# The process of a job

The daemon runs `_run` in a process of its own and follows its events through a file. A collector
in the worker writes each event as a line of JSON; the daemon reads what is there, cuts off the
lines that are complete and queues them for its clients. The result comes through a second file,
which is there as a whole or not at all.

Whatever the order in which worker, file system, daemon and clients move, and whenever the worker
dies, the clients are told a beginning of what the worker reported, in its order and nothing
twice.
-/

namespace Batchalign.Desktop

open Batchalign.Compare Batchalign.Cli Batchalign.Engine DispatchWindow JsonText LineBuffer
  Transition

section Definitions

/-- The name of a variant, which goes over the wire. -/
def kindName : ProgressKind → String
  | .stageStarted => "StageStarted"
  | .stageInjected => "StageInjected"
  | .stageFailed => "StageFailed"
  | .stageSkipped => "StageSkipped"
  | .sourceCompleted => "SourceCompleted"

/-- The payload of an event. -/
def WireEvent.payload (event : WireEvent) : Fields :=
  [("source_id", .text event.sourceId), ("kind", .text (kindName event.kind)),
    ("task", .text event.task.debug), ("completed", .number event.completed),
    ("total", .number event.total), ("label", event.label.elim .null .text)]

/-- `json.dumps(event)`. -/
def WireEvent.line (event : WireEvent) : List Char := dumps event.payload

/-- What `result.json` holds. -/
structure Report where
  state : JobState
  error : Option String
  result : Option (List Artifact)
deriving DecidableEq, Repr

/-- Where `run_job` is. The flag says that the process is known to have ended. -/
inductive MonitorPhase where
  | starting
  | watching
  | left
  | waiting
  | reading (last : Bool)
  | cutting (last : Bool)
  | concluding
  | closing
  | ended
deriving DecidableEq, Repr

/-- The worker process, the files between the processes, and the job of the daemon. -/
structure Bridge (Choice : Type) where
  worker : JobRun Choice
  dumped : ℕ
  unwritten : List Char
  file : Option (List Char)
  report : Option Report
  code : Option ℤ
  state : JobState
  error : Option String
  result : Option (List Artifact)
  offset : ℕ
  pending : List Char
  queue : List (Option Fields)
  phase : MonitorPhase

/-- What one of the parties does next. The faults are those of the file system and of the process
that could not be started. -/
inductive BridgeEvent (Choice : Type) where
  | work (event : JobEvent Choice)
  | openFile
  | dump
  | write (length : ℕ)
  | report
  | exit (code : ℤ)
  | cancel
  | shutdown
  | start (fault : Option String)
  | look (noticed : Bool)
  | leave
  | wait
  | read (fault : Option String)
  | cutLine
  | conclude (fault : Option String)
  | close

variable {Choice : Type}

/-- No one has asked for the job to end. -/
def BridgeEvent.isCalm : BridgeEvent Choice → Bool
  | .cancel | .shutdown => false
  | _ => true

def JobEvent.isCancel : JobEvent Choice → Bool
  | .cancel => true
  | _ => false

namespace Bridge

/-- What has reached the file of events. -/
def text (bridge : Bridge Choice) : List Char := bridge.file.getD []

def goTo (bridge : Bridge Choice) (phase : MonitorPhase) : Bridge Choice :=
  { bridge with phase := phase }

def put (bridge : Bridge Choice) (entries : List Fields) : Bridge Choice :=
  { bridge with queue := bridge.queue ++ entries.map some }

def start (req : ValidRequest) (sources : List (String × PurePath)) : Bridge Choice where
  worker := .start req sources
  dumped := 0
  unwritten := []
  file := none
  report := none
  code := none
  state := .running
  error := none
  result := none
  offset := 0
  pending := []
  queue := []
  phase := .starting

/-- The failure of a source of a job that has failed as a whole. -/
def failure (req : ValidRequest) (message : String) (entry : String × PurePath) : Fields :=
  match lastStep req with
  | some step => (stepEvent entry.1 .stageFailed step (some message)).payload
  | none => []

/-- An exception ends the job, unless it has been cancelled. -/
def raise (req : ValidRequest) (sources : List (String × PurePath)) (bridge : Bridge Choice)
    (message : String) : Bridge Choice :=
  if bridge.state = .cancelled then bridge.goTo .closing
  else
    { bridge.put (sources.map (failure req message)) with
      state := .failed
      error := some message
      phase := .closing }

/-- `job.state in (PENDING, RUNNING)`. -/
def isOpen (bridge : Bridge Choice) : Prop := bridge.state = .pending ∨ bridge.state = .running

instance (bridge : Bridge Choice) : Decidable bridge.isOpen :=
  inferInstanceAs (Decidable (_ ∨ _))

/-- `cancel_job`. -/
def cancel (bridge : Bridge Choice) : Bridge Choice :=
  if bridge.isOpen then { bridge with state := .cancelled } else bridge

/-- One line of `drain_events`, or its end. -/
def cutLine (req : ValidRequest) (sources : List (String × PurePath)) (last : Bool)
    (bridge : Bridge Choice) : Bridge Choice :=
  match cut '\n' bridge.pending with
  | none => bridge.goTo (if last then .concluding else .watching)
  | some (line, rest) =>
      let next := { bridge with pending := rest }
      if bridge.state = .cancelled then next
      else
        match loads line with
        | some fields => next.put [fields]
        | none => raise req sources next "JSONDecodeError"

/-- The report is taken over, if the process has ended well. -/
def conclude (req : ValidRequest) (sources : List (String × PurePath)) (bridge : Bridge Choice)
    (fault : Option String) : Bridge Choice :=
  if bridge.code ≠ some 0 then
    raise req sources bridge
      ("RuntimeError: model worker exited with code " ++ (bridge.code.map toString).getD "")
  else
    -- A worker that ends well has left its report, so that the second case is never met.
    match fault, bridge.report with
    | some message, _ => raise req sources bridge message
    | none, none => raise req sources bridge "FileNotFoundError"
    | none, some report =>
        { bridge with
          state := report.state
          error := report.error
          result := report.result
          phase := .closing }

variable [FileSystem] [ChatFormat] [ValidationGates]

/-- One step of the worker, of the files or of the daemon. -/
def step (surroundings : Surroundings Choice) (req : ValidRequest) (root : PurePath)
    (sources : List (String × PurePath)) (bridge : Bridge Choice) :
    BridgeEvent Choice → Option (Bridge Choice)
  | .work event =>
      if bridge.phase = .starting ∨ event.isCancel then none
      else
        (JobRun.step surroundings req root sources bridge.worker event).map fun worker =>
          { bridge with worker := worker }
  | .openFile =>
      if bridge.phase = .starting ∨ bridge.file.isSome then none
      else some { bridge with file := some [] }
  | .dump =>
      match bridge.file, bridge.unwritten, bridge.worker.events[bridge.dumped]? with
      | some _, [], some event =>
          some { bridge with dumped := bridge.dumped + 1, unwritten := event.line ++ ['\n'] }
      | _, _, _ => none
  | .write length =>
      bridge.file.map fun there =>
        { bridge with
          file := some (there ++ bridge.unwritten.take length)
          unwritten := bridge.unwritten.drop length }
  | .report =>
      if bridge.worker.phase.isEnded ∧ bridge.file.isSome ∧
          bridge.dumped = bridge.worker.events.length ∧ bridge.unwritten = [] then
        some { bridge with
          report := some ⟨bridge.worker.state, bridge.worker.error, bridge.worker.result⟩ }
      else none
  | .exit code =>
      if bridge.phase = .starting ∨ bridge.code.isSome ∨ code = 0 ∧ bridge.report.isNone then none
      else some { bridge with code := some code }
  | .cancel => some bridge.cancel
  | .shutdown =>
      if bridge.phase = .closing ∨ bridge.phase = .ended then none
      else some { bridge with state := .cancelled, phase := .closing }
  | .start fault =>
      match bridge.phase, fault with
      | .starting, none => some (bridge.goTo .watching)
      | .starting, some message => some (raise req sources bridge message)
      | _, _ => none
  | .look noticed =>
      match bridge.phase with
      | .watching =>
          if bridge.state = .cancelled ∨ noticed ∧ bridge.code.isSome then some (bridge.goTo .left)
          else some (bridge.goTo (.reading false))
      | _ => none
  | .leave =>
      match bridge.phase with
      | .left =>
          if bridge.state = .cancelled then some (bridge.goTo .closing)
          else some (bridge.goTo .waiting)
      | _ => none
  | .wait =>
      match bridge.phase with
      | .waiting => if bridge.code.isSome then some (bridge.goTo (.reading true)) else none
      | _ => none
  | .read fault =>
      match bridge.phase, fault, bridge.file with
      | .reading _, some message, _ => some (raise req sources bridge message)
      | .reading last, none, none => some (bridge.goTo (.cutting last))
      | .reading last, none, some there =>
          some { bridge with
            pending := bridge.pending ++ there.drop bridge.offset
            offset := there.length
            phase := .cutting last }
      | _, _, _ => none
  | .cutLine =>
      match bridge.phase with
      | .cutting last => some (cutLine req sources last bridge)
      | _ => none
  | .conclude fault =>
      match bridge.phase with
      | .concluding => some (conclude req sources bridge fault)
      | _ => none
  | .close =>
      match bridge.phase with
      | .closing => some { bridge with queue := bridge.queue ++ [none], phase := .ended }
      | _ => none

end Bridge

/-- The runs of a job and its process. -/
def bridgeSystem [FileSystem] [ChatFormat] [ValidationGates] (surroundings : Surroundings Choice)
    (req : ValidRequest) (root : PurePath) (sources : List (String × PurePath)) :
    System (Bridge Choice) (BridgeEvent Choice) where
  Initial bridge := bridge = .start req sources
  step := Bridge.step surroundings req root sources

end Definitions

section Worker

variable {Choice : Type} {sources : List (String × PurePath)} {job next last : JobRun Choice}

/-- The job goes on reporting, in the state it is in. -/
structure GoesOn (job next : JobRun Choice) : Prop where
  events : job.events <+: next.events
  state : next.state = job.state

theorem GoesOn.refl (job : JobRun Choice) : GoesOn job job := ⟨List.prefix_refl _, rfl⟩

theorem GoesOn.trans (first : GoesOn job next) (second : GoesOn next last) : GoesOn job last :=
  ⟨first.events.trans second.events, second.state.trans first.state⟩

theorem GoesOn.report (job : JobRun Choice) (event : WireEvent) : GoesOn job (job.report event) :=
  ⟨List.prefix_append _ _, rfl⟩

theorem GoesOn.fail (job : JobRun Choice) (step : DesktopStep) (sid message : String) :
    GoesOn job (job.fail step sid message) :=
  ⟨List.prefix_append _ _, rfl⟩

theorem goesOn_prepare [FileSystem] (surroundings : Surroundings Choice)
    (sources rest : List (String × PurePath)) (step : DesktopStep) (setup : Setup Choice)
    (job : JobRun Choice) : GoesOn job (prepare surroundings sources step setup job rest).1 := by
  induction rest generalizing job with
  | nil => exact .refl job
  | cons entry rest ih =>
      rw [prepare]
      dsimp only
      have started := GoesOn.report job (stepEvent entry.1 .stageStarted step none)
      cases makeInput step ((sources.lookup entry.1).getD entry.2) entry.2 entry.1 with
      | error message => exact (started.trans (.fail _ step entry.1 message)).trans (ih _)
      | ok spec => exact started.trans (ih _)

theorem goesOn_progress (sources : List (String × PurePath)) (stage : Stage)
    (job : JobRun Choice) (event : ProgressEvent) :
    GoesOn job (job.progress sources stage event) := by
  unfold JobRun.progress
  split
  · exact .refl job
  · dsimp only
    split_ifs
    · exact .refl job
    · exact ⟨List.prefix_append _ _, rfl⟩
    · exact .report job _

theorem goesOn_publishSource (job : JobRun Choice) (phase : JobPhase Choice)
    (step : DesktopStep) (sid : String) (staged target : PurePath)
    (metricsDisk targetDisk : Option String) :
    GoesOn job
      ((job.goTo phase).publishSource step sid staged target metricsDisk targetDisk) := by
  have same := publishFiles_same (job.goTo phase) sid staged target metricsDisk targetDisk
  have published : GoesOn job
      ((job.goTo phase).publishFiles sid staged target metricsDisk targetDisk).1 :=
    ⟨same.events ▸ List.prefix_refl _, same.state⟩
  unfold JobRun.publishSource
  split
  · next published' message isPublished =>
      rw [isPublished] at published
      exact published.trans (.fail _ step sid message)
  · next published' isPublished =>
      rw [isPublished] at published
      exact published.trans (.report _ _)

variable [ChatFormat]

theorem goesOn_outcome (workdir : PurePath) (sources : List (String × PurePath)) (stage : Stage)
    (job : JobRun Choice) (value : BAValue) (disk : Option String) :
    GoesOn job (job.outcome workdir sources stage value disk).1 := by
  unfold JobRun.outcome
  split
  · exact .refl job
  · split_ifs
    · exact .refl job
    · split
      · exact .fail job _ _ _
      · refine ⟨?_, rfl⟩
        unfold JobRun.keep
        dsimp only
        split_ifs
        · exact List.prefix_append _ _
        · exact List.prefix_refl _

theorem goesOn_callback (surroundings : Surroundings Choice)
    (sources : List (String × PurePath)) (stage : Stage) (job : JobRun Choice) (pool : StagePool)
    (event : RunEvent Choice (Option String)) :
    GoesOn job (callback surroundings sources stage job pool event).1 := by
  unfold callback
  split
  · split
    · dsimp only
      split_ifs
      · exact goesOn_progress ..
      · exact .refl job
    · exact .refl job
  · split
    · exact goesOn_outcome ..
    · exact .refl job
  · exact .refl job

/-- What a step of a job does to what it has reported, and to its state. -/
structure StepsTo (job next : JobRun Choice) : Prop where
  events : job.events <+: next.events
  alive : job.state ≠ .cancelled → next.state ≠ .cancelled
  ended : next.phase.isEnded → next.state ≠ .pending ∧ next.state ≠ .running

omit [ChatFormat] in
theorem GoesOn.stepsTo (goesOn : GoesOn job next) {phase : JobPhase Choice}
    (going : phase.isEnded = false) : StepsTo job (next.goTo phase) := by
  refine ⟨goesOn.events, fun alive => goesOn.state ▸ alive, ?_⟩
  intro isEnded
  have same : phase.isEnded = true := isEnded
  rw [going] at same
  cases same

omit [ChatFormat] in
theorem stepsTo_raise (job : JobRun Choice) (step : DesktopStep) (message : String) :
    StepsTo job (job.raise step message) := by
  unfold JobRun.raise
  dsimp only
  split_ifs with cancelled
  · refine ⟨List.prefix_refl _, fun alive => alive, fun _ => ?_⟩
    rw [cancelled]
    exact ⟨JobState.noConfusion, JobState.noConfusion⟩
  · exact ⟨List.prefix_append _ _, fun _ => JobState.noConfusion,
      fun _ => ⟨JobState.noConfusion, JobState.noConfusion⟩⟩

theorem stepsTo [FileSystem] [ValidationGates] {surroundings : Surroundings Choice}
    {req : ValidRequest} {root : PurePath} {event : JobEvent Choice}
    (works : event.isCancel = false)
    (steps : JobRun.step surroundings req root sources job event = some next) :
    StepsTo job next := by
  cases event with
  | cancel => cases works
  | enterStage =>
      simp only [JobRun.step] at steps
      split at steps
      · cases steps
        exact (GoesOn.refl job).stepsTo rfl
      · split_ifs at steps
        · cases steps
          exact (GoesOn.refl job).stepsTo rfl
        · split at steps
          · cases steps
            exact stepsTo_raise ..
          · cases steps
            have clear : GoesOn job job.clear := ⟨List.prefix_refl _, rfl⟩
            exact (clear.trans (goesOn_prepare ..)).stepsTo rfl
      · cases steps
  | engine event =>
      simp only [JobRun.step] at steps
      split at steps
      · rcases Option.map_eq_some_iff.mp steps with ⟨moved, _, rfl⟩
        exact (goesOn_callback ..).stepsTo rfl
      · cases steps
  | returned =>
      simp only [JobRun.step] at steps
      split at steps
      · split at steps
        · cases steps
        · cases steps
          exact (GoesOn.refl job).stepsTo rfl
        · cases steps
          exact stepsTo_raise ..
      · cases steps
  | sweep =>
      simp only [JobRun.step] at steps
      split at steps
      · cases steps
        exact ⟨List.prefix_refl _, fun alive => alive,
          fun isEnded => absurd isEnded Bool.false_ne_true⟩
      · split_ifs at steps
        · cases steps
          exact ⟨List.prefix_append _ _, fun alive => alive,
            fun isEnded => absurd isEnded Bool.false_ne_true⟩
        · cases steps
          exact (GoesOn.refl job).stepsTo rfl
      · cases steps
  | leave =>
      simp only [JobRun.step] at steps
      split at steps
      · split_ifs at steps with cancelled
        · cases steps
          refine ⟨List.prefix_refl _, fun alive => alive, fun _ => ?_⟩
          rw [JobRun.goTo, cancelled]
          exact ⟨JobState.noConfusion, JobState.noConfusion⟩
        · cases steps
          exact (GoesOn.refl job).stepsTo rfl
      · cases steps
  | publish metricsDisk targetDisk =>
      simp only [JobRun.step] at steps
      split at steps
      · cases steps
        refine ⟨List.prefix_refl _, fun _ => ?_, fun _ => ?_⟩
        · unfold JobRun.finish
          dsimp only
          split_ifs
          · exact JobState.noConfusion
          · exact JobState.noConfusion
        · unfold JobRun.finish
          dsimp only
          split_ifs
          · exact ⟨JobState.noConfusion, JobState.noConfusion⟩
          · exact ⟨JobState.noConfusion, JobState.noConfusion⟩
      · split at steps
        · cases steps
          exact stepsTo_raise ..
        · cases steps
          refine ⟨(goesOn_publishSource ..).events, fun alive => ?_, ?_⟩
          · rw [(goesOn_publishSource ..).state]
            exact alive
          · intro isEnded
            rw [publishSource_phase] at isEnded
            cases isEnded
      · cases steps

/-- A job that has ended does nothing more. -/
theorem JobRun.step_ended [FileSystem] [ValidationGates] {surroundings : Surroundings Choice}
    {req : ValidRequest} {root : PurePath} {event : JobEvent Choice}
    (isEnded : job.phase.isEnded = true) :
    JobRun.step surroundings req root sources job event = none := by
  have phase := JobPhase.eq_ended isEnded
  cases event with
  | publish metricsDisk targetDisk => simp [JobRun.step, phase]
  | _ => simp [JobRun.step, phase]

end Worker

end Batchalign.Desktop
