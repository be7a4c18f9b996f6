import Batchalign.Desktop.Published
import Batchalign.Desktop.Stream
import Batchalign.Gui.Tidy

/-!
# The app and its daemon

A batch that is started is posted to the daemon, and its job is then polled until it has come to
an end. Meanwhile pumps hand the events of the jobs to the store, and the user goes on. A request
may be refused or lost on its way, an answer may be missed, an event may be lost by a pump, and
the daemon has other clients.
-/

namespace Batchalign.Gui

open Batchalign.Cli Batchalign.Compare Batchalign.Desktop Batchalign.Engine Batchalign.Morphosyntax
  JsonText Transition

section Wire

def text? : Scalar → Option String
  | .text value => some value
  | _ => none

def number? : Scalar → Option ℕ
  | .number value => some value
  | _ => none

def kindOf (name : String) : Option ProgressKind :=
  [.stageStarted, .stageInjected, .stageFailed, .stageSkipped, .sourceCompleted].find? fun kind =>
    kindName kind = name

/-- The event in the data of a message. -/
def ProgressEvent.ofFields (fields : Fields) : Option ProgressEvent := do
  let sourceId ← (fields.lookup "source_id").bind text?
  let kind ← ((fields.lookup "kind").bind text?).bind kindOf
  let completed ← (fields.lookup "completed").bind number?
  let total ← (fields.lookup "total").bind number?
  some ⟨sourceId, kind, (fields.lookup "task").bind text?, completed, total,
    (fields.lookup "label").bind text?⟩

/-- An event of a job as the app gets it. -/
def shown (event : WireEvent) : ProgressEvent :=
  ⟨event.sourceId, event.kind, some event.task.debug, event.completed, event.total, event.label⟩

theorem kindOf_kindName (kind : ProgressKind) : kindOf (kindName kind) = some kind := by
  cases kind <;> rfl

theorem ofFields_payload (event : WireEvent) :
    ProgressEvent.ofFields event.payload = some (shown event) := by
  cases label : event.label <;>
    simp [ProgressEvent.ofFields, WireEvent.payload, shown, List.lookup_cons, text?, number?,
      kindOf_kindName, label]

end Wire

section Daemon

variable {Choice : Type}

/-- A job that the daemon has accepted, with the file system it was accepted in. -/
structure DaemonJob (Choice : Type) where
  desk : FileSystem
  surroundings : Surroundings Choice
  request : ValidRequest
  root : PurePath
  sources : List (String × PurePath)
  bridge : Bridge Choice
  taken : ℕ

/-- The checks of `DesktopRequest`. -/
def validate (req : DesktopRequest) : Option ValidRequest :=
  if known : req.sourceIds ≠ [] ∧ req.steps ≠ [] ∧ 0 < req.workers ∧ req.workers ≤ 64 ∧
      validPipeline req = .ok req then
    some ⟨req, known.1, known.2.1, known.2.2.1, known.2.2.2.1, known.2.2.2.2⟩
  else none

/-- `start_desktop_job`, once the arguments of the recipes are known to fit. -/
def startDesktopJob [PythonText] (desk : FileSystem) (surroundings : Surroundings Choice)
    (req : DesktopRequest) : Option (DaemonJob Choice) :=
  (validate req).bind fun valid =>
    match sources valid.toDesktopRequest with
    | .ok (root, sources) =>
        some ⟨desk, surroundings, valid, root, sources, .start valid sources, 0⟩
    | .error _ => none

variable [ChatFormat] [ValidationGates]

def DaemonJob.step (job : DaemonJob Choice) (event : BridgeEvent Choice) :
    Option (DaemonJob Choice) :=
  letI := job.desk
  (job.bridge.step job.surroundings job.request job.root job.sources event).map fun bridge =>
    { job with bridge := bridge }

end Daemon

section Definitions

variable {Choice : Type}

/-- Where `startBatch` is: before the answer to its request, or between two polls or in one, with
the polls that failed before it. -/
inductive SubmissionPhase where
  | posted
  | accepted (jobId : String)
  | refused (message : String)
  | polling (jobId : String) (failures : ℕ)
  | fetching (jobId : String) (failures : ℕ)
deriving DecidableEq, Repr

structure Submission where
  request : DesktopRequest
  files : List FileRow
  phase : SubmissionPhase

/-- The store, the batches in `submitting`, the jobs of the daemon, and for each pump its batch and
its job. -/
structure App (Choice : Type) where
  store : AppState
  submissions : List (String × Submission)
  jobs : List (String × DaemonJob Choice)
  pumps : List (String × String)

/-- The actions that are dispatched as they come, by the panels and when the daemon starts or
stops. -/
def Action.isFree : Action → Bool
  | .batchOpened _ | .filesRediscovered .. | .batchStarted .. | .progressV2 ..
  | .batchFinished .. => false
  | _ => true

/-- What happens next, and what it comes with: an id, a message, the file system and the
surroundings of a job. -/
inductive AppEvent (Choice : Type) where
  | act (action : Action)
  | openFolder (id path : String) (found : List FolderFile)
  | rediscover (batchId : String) (firstStep : Option Verb) (jobId : Option String)
      (found : List FolderFile)
  | start (batchId : String)
  | accept (batchId jobId : String) (desk : FileSystem) (surroundings : Surroundings Choice)
  | refuse (batchId message : String)
  | respond (batchId : String)
  | lose (batchId message : String)
  | stray (jobId : String) (request : DesktopRequest) (desk : FileSystem)
      (surroundings : Surroundings Choice)
  | work (jobId : String) (event : BridgeEvent Choice)
  | relay (index : ℕ) (arrives : Bool)
  | check (batchId : String)
  | status (batchId : String)
  | miss (batchId message : String)

def stateName : JobState → String
  | .pending => "pending"
  | .running => "running"
  | .completed => "completed"
  | .failed => "failed"
  | .cancelled => "cancelled"

namespace App

variable [Browser]

def dispatch (now : ℕ) (app : App Choice) (action : Action) : App Choice :=
  { app with store := reducer now app.store action }

def withPhase (app : App Choice) (batchId : String) (submission : Submission)
    (phase : SubmissionPhase) : App Choice :=
  { app with submissions := dictSet batchId { submission with phase := phase } app.submissions }

def leave (app : App Choice) (batchId : String) : App Choice :=
  { app with submissions := app.submissions.filter fun entry => entry.1 ≠ batchId }

/-- The last dispatch of `startBatch`. -/
def finish (now : ℕ) (app : App Choice) (batchId jobId : String) (error : Option String) :
    App Choice :=
  (app.dispatch now (.batchFinished batchId jobId error)).leave batchId

/-- A pump takes an item from the queue of its job. The last item ends it. -/
def relayed (now : ℕ) (app : App Choice) (index : ℕ) (pump : String × String)
    (job : DaemonJob Choice) (arrives : Bool) (item : Option Fields) : App Choice :=
  let next := { app with jobs := dictSet pump.2 { job with taken := job.taken + 1 } app.jobs }
  match item with
  | none => { next with pumps := app.pumps.eraseIdx index }
  | some fields =>
      match arrives, (loads (dumps fields)).bind ProgressEvent.ofFields with
      | true, some event => next.dispatch now (.progressV2 pump.1 (some pump.2) event)
      | _, _ => next

/-- The answer to a poll. -/
def polled (now : ℕ) (app : App Choice) (batchId : String) (submission : Submission)
    (jobId : String) (job : DaemonJob Choice) : App Choice :=
  match job.bridge.state with
  | .pending | .running => app.withPhase batchId submission (.polling jobId 0)
  | .completed => app.finish now batchId jobId none
  | state => app.finish now batchId jobId
      (some ((job.bridge.error.filter (· ≠ "")).getD ("job " ++ stateName state)))

variable [Panels] [PythonText] [ChatFormat] [ValidationGates]

def step (now : ℕ) (app : App Choice) : AppEvent Choice → Option (App Choice)
  | .act action => if action.isFree then some (app.dispatch now action) else none
  | .openFolder id path found =>
      -- The new id is that of no batch, and a scan finds no file twice.
      if id ∈ keys app.submissions ∨ id ∈ keys app.store.batches ∨
          ¬ (found.map FolderFile.sourceId).Nodup then none
      else (openFolder now id path found app.store).map fun store => { app with store := store }
  | .rediscover batchId firstStep jobId found =>
      if (found.map FolderFile.sourceId).Nodup then
        some (app.dispatch now (.filesRediscovered batchId firstStep jobId (scanFolder found)))
      else none
  | .start batchId =>
      (submission app.store (keys app.submissions) batchId).map fun posted =>
        { app.dispatch now (.batchStarted batchId "" posted.2) with
          submissions := app.submissions ++ [(batchId, ⟨posted.1, posted.2, .posted⟩)] }
  | .accept batchId jobId desk surroundings =>
      (app.submissions.lookup batchId).bind fun submission =>
        if submission.phase ≠ .posted ∨ jobId = "" ∨ jobId ∈ keys app.jobs then none
        else (startDesktopJob desk surroundings submission.request).map fun job =>
          { app.withPhase batchId submission (.accepted jobId) with
            jobs := app.jobs ++ [(jobId, job)] }
  | .refuse batchId message =>
      (app.submissions.lookup batchId).bind fun submission =>
        if submission.phase ≠ .posted ∨ message = "" then none
        else some (app.withPhase batchId submission (.refused message))
  | .respond batchId =>
      (app.submissions.lookup batchId).bind fun submission =>
        match submission.phase with
        | .accepted jobId =>
            some { (app.dispatch now (.batchStarted batchId jobId submission.files)).withPhase
                batchId submission (.polling jobId 0) with
              pumps := app.pumps ++ [(batchId, jobId)] }
        | .refused message => some (app.finish now batchId "" (some message))
        | _ => none
  | .lose batchId message =>
      (app.submissions.lookup batchId).bind fun submission =>
        match submission.phase with
        | .posted | .accepted _ =>
            if message = "" then none else some (app.finish now batchId "" (some message))
        | _ => none
  | .stray jobId request desk surroundings =>
      if jobId = "" ∨ jobId ∈ keys app.jobs then none
      else (startDesktopJob desk surroundings request).map fun job =>
        { app with jobs := app.jobs ++ [(jobId, job)] }
  | .work jobId event =>
      (app.jobs.lookup jobId).bind fun job => (job.step event).map fun next =>
        { app with jobs := dictSet jobId next app.jobs }
  | .relay index arrives =>
      app.pumps[index]?.bind fun pump => (app.jobs.lookup pump.2).bind fun job =>
        job.bridge.queue[job.taken]?.map (app.relayed now index pump job arrives)
  | .check batchId =>
      (app.submissions.lookup batchId).bind fun submission =>
        match submission.phase with
        | .polling jobId failures =>
            if (app.store.batches.lookup batchId).bind Batch.jobId = some jobId then
              some (app.withPhase batchId submission (.fetching jobId failures))
            else some (app.leave batchId)
        | _ => none
  | .status batchId =>
      (app.submissions.lookup batchId).bind fun submission =>
        match submission.phase with
        | .fetching jobId _ => (app.jobs.lookup jobId).map
            (app.polled now batchId submission jobId)
        | _ => none
  | .miss batchId message =>
      (app.submissions.lookup batchId).bind fun submission =>
        match submission.phase with
        | .fetching jobId failures =>
            if message = "" then none
            else if 5 ≤ failures + 1 then some (app.finish now batchId jobId (some message))
            else some (app.withPhase batchId submission (.polling jobId (failures + 1)))
        | _ => none

end App

/-- The runs of the app, from its start. Every event has its time. -/
def appSystem [Browser] [Panels] [PythonText] [ChatFormat] [ValidationGates] (Choice : Type) :
    System (App Choice) (ℕ × AppEvent Choice) where
  Initial app := app = ⟨initial, [], [], []⟩
  step app event := app.step event.1 event.2

end Definitions

end Batchalign.Gui
