import Batchalign.Desktop.Request

/-!
# The store of the desktop app

What the app shows is one state, and one reducer makes every change of it: those of the user,
those of the daemon that starts and stops, and those of the jobs that run. An action that comes
too late (for a batch that is closed, a job that has been replaced, or a row that has ended) leaves
the state as it is.
-/

namespace Batchalign.Gui

open Batchalign.Desktop Batchalign.Morphosyntax

section Rows

inductive StageState where
  | queued
  | running
  | done
  | fail
deriving DecidableEq, Repr

inductive FileStatus where
  | queued
  | running
  | done
  | failed
deriving DecidableEq, Repr

inductive BatchState where
  | idle
  | running
  | done
  | failed
deriving DecidableEq, Repr

inductive FileKind where
  | media
  | chat
deriving DecidableEq, Repr

inductive LogLevel where
  | info
  | warn
  | error
deriving DecidableEq, Repr

/-- `VERB_TO_TASK`. -/
def verbToTask : Verb → String
  | .transcribe => "Asr"
  | .diarize => "Speaker"
  | .align => "Fa"
  | .morphotag => "Morphosyntax"
  | .translate => "Translate"
  | .compare => "Compare"

structure StageRow where
  verb : Verb
  state : StageState
  pct : ℕ
deriving DecidableEq, Repr

structure LogEntry where
  ts : ℕ
  level : LogLevel
  text : String
deriving DecidableEq, Repr

structure FileRow where
  sourceId : String
  stem : String
  filename : String
  sizeBytes : ℕ
  durationMs : Option ℕ
  kind : FileKind
  status : FileStatus
  stages : List StageRow
  log : List LogEntry
deriving DecidableEq, Repr

/-- An event of a job as it comes over the wire. -/
structure ProgressEvent where
  sourceId : String
  kind : ProgressKind
  task : Option String
  completed : ℕ
  total : ℕ
  label : Option String
deriving DecidableEq, Repr

/-- What the browser computes with floating point: `Math.round((completed / total) * 100)`. -/
class Browser where
  rounded : ℕ → ℕ → ℕ

def makeStages (pipeline : List Verb) : List StageRow := pipeline.map fun verb => ⟨verb, .queued, 0⟩

def findStageIndex (file : FileRow) (task : Option String) : Option ℕ :=
  task.bind fun task => file.stages.findIdx? fun stage => verbToTask stage.verb = task

def recomputeFileStatus (file : FileRow) : FileStatus :=
  if file.stages.all fun stage => stage.state = .done then .done
  else if file.stages.any fun stage => stage.state = .fail then .failed
  else if file.stages.any fun stage => stage.state = .running then .running
  else .queued

/-- `log.slice(-200)`. -/
def lastEntries (log : List LogEntry) : List LogEntry := log.drop (log.length - 200)

/-- The stages after an event for the one with this index. -/
def moveStages [Browser] (event : ProgressEvent) (stageIdx : Option ℕ) (stages : List StageRow) :
    List StageRow :=
  match event.kind, stageIdx with
  | .stageStarted, some index => stages.mapIdx fun place stage =>
      if place < index then { stage with state := .done }
      else if place = index then { stage with state := .running, pct := 0 }
      else stage
  | .stageInjected, some index => stages.modify index fun stage =>
      { stage with
        state := .running
        pct := if 0 < event.total then min 100 (Browser.rounded event.completed event.total)
          else stage.pct }
  | .stageSkipped, some index => stages.modify index fun stage =>
      { stage with state := .done, pct := 100 }
  | .stageFailed, some index => stages.modify index fun stage => { stage with state := .fail }
  | .sourceCompleted, _ => stages.map fun stage =>
      if stage.state = .fail then stage else { stage with state := .done, pct := 100 }
  | _, none => stages

def addEntry (now : ℕ) (event : ProgressEvent) (log : List LogEntry) : List LogEntry :=
  match event.kind with
  | .stageStarted | .stageInjected =>
      match event.label with
      | some label => if label = "" then log else log ++ [⟨now, .info, label⟩]
      | none => log
  | .stageFailed => log ++ [⟨now, .error, event.label.getD "stage failed"⟩]
  | .stageSkipped | .sourceCompleted => log

/-- The row of `PROGRESS_V2`, unless it has ended. -/
def FileRow.progress [Browser] (now : ℕ) (event : ProgressEvent) (file : FileRow) : FileRow :=
  if file.status = .done ∨ file.status = .failed then file
  else
    let stages := moveStages event (findStageIndex file event.task) file.stages
    { file with
      stages := stages
      log := lastEntries (addEntry now event file.log)
      status :=
        if event.kind = .sourceCompleted then recomputeFileStatus { file with stages := stages }
        else if stages.any fun stage => stage.state = .fail then .failed
        else .running }

/-- The row of `BATCH_FINISHED`. -/
def FileRow.finish (now : ℕ) (error : Option String) (file : FileRow) : FileRow :=
  match error with
  | some message =>
      if file.status = .done then file
      else
        { file with
          status := .failed
          stages := file.stages.map fun stage =>
            { stage with state := if stage.state = .done then .done else .fail }
          log := lastEntries (file.log ++ [⟨now, .error, message⟩]) }
  | none =>
      { file with
        status := .done
        stages := file.stages.map fun stage => { stage with state := .done, pct := 100 } }

end Rows

section State

/-- A value of a panel. -/
inductive Setting where
  | text (text : String)
  | number (value : ℕ)
  | flag (value : Bool)
  | null
deriving DecidableEq, Repr

abbrev VerbConfig := List (String × Setting)

structure Batch where
  id : String
  folderPath : String
  inPlace : Bool
  outputPath : Option String
  jobOutputPath : Option String
  pipeline : List Verb
  config : List (Verb × VerbConfig)
  files : List (String × FileRow)
  fileOrder : List String
  needsDiscovery : Bool
  discoveryError : Option String
  state : BatchState
  jobId : Option String
  startedAt : Option ℕ
  finishedAt : Option ℕ
  expandedFileId : Option String
deriving DecidableEq, Repr

/-- The settings that reach a request. -/
structure SettingsState where
  defaultWorkers : ℕ
  forceCpu : Bool
deriving DecidableEq, Repr

/-- `Partial<SettingsState>`. -/
structure SettingsPatch where
  defaultWorkers : Option ℕ
  forceCpu : Option Bool
deriving DecidableEq, Repr

structure DaemonState where
  port : Option ℕ
  ready : Bool
  error : Option String
  progressLine : Option String
deriving DecidableEq, Repr

/-- The part of `/capabilities` that a batch is checked against. -/
structure Capabilities where
  backendsByTask : List (String × List String)
deriving DecidableEq, Repr

structure AppState where
  batches : List (String × Batch)
  tabOrder : List String
  activeBatchId : Option String
  daemon : DaemonState
  capabilities : Option Capabilities
  settings : SettingsState
  showSettings : Bool
deriving DecidableEq, Repr

def initial : AppState where
  batches := []
  tabOrder := []
  activeBatchId := none
  daemon := ⟨none, false, none, none⟩
  capabilities := none
  settings := ⟨4, false⟩
  showSettings := false

inductive Action where
  | daemonReady (port : ℕ)
  | daemonFailed (reason : String)
  | daemonProgress (line : String)
  | capabilitiesLoaded (capabilities : Capabilities)
  | batchOpened (batch : Batch)
  | batchClosed (batchId : String)
  | batchActivated (batchId : String)
  | batchInplaceChanged (batchId : String) (inPlace : Bool)
  | batchOutputChanged (batchId : String) (outputPath : Option String)
  | pipelineChanged (batchId : String) (pipeline : List Verb)
  | filesRediscovered (batchId : String) (firstStep : Option Verb) (jobId : Option String)
      (files : List FileRow)
  | fileDiscoveryFailed (batchId : String) (firstStep : Option Verb) (jobId : Option String)
      (error : String)
  | verbConfigChanged (batchId : String) (verb : Verb) (patch : VerbConfig)
  | batchStarted (batchId jobId : String) (files : List FileRow)
  | progressV2 (batchId : String) (jobId : Option String) (event : ProgressEvent)
  | batchFinished (batchId jobId : String) (error : Option String)
  | fileExpanded (batchId : String) (sourceId : Option String)
  | settingsToggled (show_ : Bool)
  | settingsUpdated (patch : SettingsPatch)
deriving DecidableEq, Repr

end State

section Reducer

/-- The rows by their ids, the last one of an id. -/
def byId (files : List FileRow) : List (String × FileRow) :=
  files.foldl (fun rows file => dictSet file.sourceId file rows) []

/-- `{ ...config, ...patch }`. -/
def patched (config patch : VerbConfig) : VerbConfig :=
  patch.foldl (fun config entry => dictSet entry.1 entry.2 config) config

namespace Batch

variable (now : ℕ) (batch : Batch)

/-- Whether the files that a scan has found are still asked for. -/
def wants (firstStep : Option Verb) (jobId : Option String) : Bool :=
  batch.state ≠ .running ∧ batch.jobId = jobId ∧ batch.pipeline.head? = firstStep

def rediscover (files : List FileRow) : Batch :=
  { batch with
    files := byId (files.map fun file => { file with stages := makeStages batch.pipeline })
    fileOrder := files.map FileRow.sourceId
    state := .idle
    jobId := none
    startedAt := none
    finishedAt := none
    expandedFileId := none
    needsDiscovery := false
    discoveryError := none }

/-- The pipeline of a batch that is not running, with new stages in every row. Each id of
`fileOrder` has its row. -/
def changePipeline (pipeline : List Verb) : Batch :=
  { batch with
    pipeline := pipeline
    needsDiscovery := batch.needsDiscovery || batch.pipeline.head? ≠ pipeline.head?
    discoveryError := if batch.pipeline.head? ≠ pipeline.head? then none else batch.discoveryError
    files := batch.fileOrder.filterMap fun id => (batch.files.lookup id).map fun file =>
      (id, { file with stages := makeStages pipeline }) }

def configure (verb : Verb) (patch : VerbConfig) : Batch :=
  { batch with
    config := dictSet verb (patched ((batch.config.lookup verb).getD []) patch) batch.config }

def start (jobId : String) (files : List FileRow) : Batch :=
  { batch with
    jobId := some jobId
    jobOutputPath := if batch.inPlace then some batch.folderPath else batch.outputPath
    files := byId files
    fileOrder := files.map FileRow.sourceId
    state := .running
    startedAt := some now
    finishedAt := none }

/-- An empty message counts as none. -/
def finish (error : Option String) : Batch :=
  let error := error.filter fun message => message ≠ ""
  { batch with
    files := batch.files.map fun entry => (entry.1, entry.2.finish now error)
    state := if error.isSome then .failed else .done
    finishedAt := some now }

def progress [Browser] (event : ProgressEvent) : Option Batch :=
  (batch.files.lookup event.sourceId).map fun file =>
    { batch with files := dictSet file.sourceId (file.progress now event) batch.files }

end Batch

namespace AppState

variable (state : AppState)

/-- The batch under a key is replaced, if there is one. -/
def update (batchId : String) (change : Batch → Batch) : AppState :=
  match state.batches.lookup batchId with
  | some batch => { state with batches := dictSet batchId (change batch) state.batches }
  | none => state

/-- The batch under a key is replaced under its own id, if it can be changed. -/
def updateIf (batchId : String) (change : Batch → Option Batch) : AppState :=
  match (state.batches.lookup batchId).bind fun batch => (change batch).map (batch.id, ·) with
  | some (id, next) => { state with batches := dictSet id next state.batches }
  | none => state

def opened (batch : Batch) : AppState :=
  { state with
    batches := dictSet batch.id batch state.batches
    tabOrder := if batch.id ∈ state.tabOrder then state.tabOrder else state.tabOrder ++ [batch.id]
    activeBatchId := some batch.id
    showSettings := false }

def closed (batchId : String) : AppState :=
  let tabOrder := state.tabOrder.filter fun id => id ≠ batchId
  { state with
    batches := state.batches.filter fun entry => entry.1 ≠ batchId
    tabOrder := tabOrder
    activeBatchId :=
      if state.activeBatchId = some batchId then tabOrder.getLast? else state.activeBatchId }

end AppState

variable [Browser]

def reducer (now : ℕ) (state : AppState) : Action → AppState
  | .daemonReady port =>
      { state with capabilities := none, daemon := ⟨some port, true, none, none⟩ }
  | .daemonFailed reason =>
      { state with capabilities := none, daemon := ⟨none, false, some reason, none⟩ }
  | .daemonProgress line => { state with daemon.progressLine := some line }
  | .capabilitiesLoaded capabilities => { state with capabilities := some capabilities }
  | .batchOpened batch => state.opened batch
  | .batchClosed batchId => state.closed batchId
  | .batchActivated batchId =>
      if (state.batches.lookup batchId).isSome then
        { state with activeBatchId := some batchId, showSettings := false }
      else state
  | .batchInplaceChanged batchId inPlace =>
      state.update batchId fun batch => { batch with inPlace := inPlace }
  | .batchOutputChanged batchId outputPath =>
      state.update batchId fun batch => { batch with outputPath := outputPath }
  | .fileDiscoveryFailed batchId firstStep jobId error =>
      state.updateIf batchId fun batch =>
        if batch.wants firstStep jobId then
          some { batch with state := .idle, needsDiscovery := true, discoveryError := some error }
        else none
  | .filesRediscovered batchId firstStep jobId files =>
      state.updateIf batchId fun batch =>
        if batch.wants firstStep jobId then some (batch.rediscover files) else none
  | .pipelineChanged batchId pipeline =>
      state.update batchId fun batch =>
        if batch.state = .running then batch else batch.changePipeline pipeline
  | .verbConfigChanged batchId verb patch =>
      state.update batchId fun batch => batch.configure verb patch
  | .batchStarted batchId jobId files =>
      state.update batchId fun batch => batch.start now jobId files
  | .batchFinished batchId jobId error =>
      state.updateIf batchId fun batch =>
        if batch.jobId = some jobId then some (batch.finish now error) else none
  | .progressV2 batchId jobId event =>
      state.updateIf batchId fun batch =>
        if jobId = none ∨ batch.jobId = jobId then batch.progress now event else none
  | .fileExpanded batchId sourceId =>
      state.update batchId fun batch => { batch with expandedFileId := sourceId }
  | .settingsToggled show_ => { state with showSettings := show_ }
  | .settingsUpdated patch =>
      { state with
        settings :=
          { defaultWorkers := patch.defaultWorkers.getD state.settings.defaultWorkers
            forceCpu := patch.forceCpu.getD state.settings.forceCpu } }

end Reducer

end Batchalign.Gui
