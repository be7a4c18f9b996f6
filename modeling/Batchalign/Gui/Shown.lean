import Batchalign.Gui.Jobs

/-!
# What the app shows of its jobs

A batch is shown running as long as its submission is under way. A row is shown done only on the
word of the job of its batch: the event that its source is complete, or the end of the whole job.
Both come from the worker of the job, so a row that is shown done has been published.
-/

namespace Batchalign.Gui

open Batchalign.Cli Batchalign.Compare Batchalign.Desktop Batchalign.Engine Batchalign.Morphosyntax
  JsonText Transition

section Definitions

variable {Choice : Type} [PythonText] [ChatFormat] [ValidationGates]

/-- The word of a job that a source is complete. -/
def DaemonJob.Vouches (job : DaemonJob Choice) (sid : String) : Prop :=
  job.Completed sid ∨ job.Finished ∧ sid ∈ job.request.sourceIds

/-- The files of the job do not get into each other's way. -/
def DaemonJob.Apart (job : DaemonJob Choice) : Prop :=
  letI := job.desk
  Desktop.Apart job.request.toDesktopRequest job.root

/-- The job that a batch shows while it is submitted. -/
def SubmissionPhase.shownJob : SubmissionPhase → String
  | .polling jobId _ | .fetching jobId _ => jobId
  | _ => ""

/-- The job that the daemon has made of a submission. -/
def SubmissionPhase.madeJob : SubmissionPhase → Option String
  | .accepted jobId | .polling jobId _ | .fetching jobId _ => some jobId
  | _ => none

structure Submission.Posted (jobs : List (String × DaemonJob Choice)) (submission : Submission) :
    Prop where
  ids : submission.files.map FileRow.sourceId = submission.request.sourceIds
  queued : ∀ file ∈ submission.files, file.status = .queued
  made : ∀ jobId, submission.phase.madeJob = some jobId →
    ∃ job, jobs.lookup jobId = some job ∧ job.request.toDesktopRequest = submission.request
  refused : ∀ message, submission.phase = .refused message → message ≠ ""

/-- A batch while it is submitted. -/
structure Batch.Submitted (submission : Submission) (batch : Batch) : Prop where
  jobId : batch.jobId = some submission.phase.shownJob
  rows : RowsFit batch.pipeline submission.files
  order : batch.fileOrder = submission.files.map FileRow.sourceId

structure Batch.Shown (jobs : List (String × DaemonJob Choice)) (submission : Option Submission)
    (batch : Batch) : Prop where
  running : batch.state = .running ↔ submission.isSome
  submitted : ∀ posted, submission = some posted → batch.Submitted posted
  vouched : ∀ sid file, batch.files.lookup sid = some file → file.status = .done →
    ∃ jobId job, batch.jobId = some jobId ∧ jobs.lookup jobId = some job ∧ job.Vouches sid
  ended : batch.state = .done → ∀ sid file, batch.files.lookup sid = some file →
    file.status = .done

variable (brings : FileSystem → Surroundings Choice → Prop)

/-- The jobs have been accepted in such file systems and surroundings. -/
def JobsRan (jobs : List (String × DaemonJob Choice)) : Prop :=
  ∀ jobId job, jobs.lookup jobId = some job → job.Ran ∧ brings job.desk job.surroundings

structure AppBooks (app : App Choice) : Prop where
  tidy : app.store.Tidy
  ran : JobsRan brings app.jobs
  posted : ∀ id submission, app.submissions.lookup id = some submission →
    submission.Posted app.jobs
  shown : ∀ id batch, app.store.batches.lookup id = some batch →
    batch.Shown app.jobs (app.submissions.lookup id)

/-- The jobs at a later time, with new ones behind them. -/
structure JobsMove (jobs next : List (String × DaemonJob Choice)) : Prop where
  later : ∀ jobId job, jobs.lookup jobId = some job →
    ∃ after, next.lookup jobId = some after ∧ job.Later after
  ran : JobsRan brings jobs → JobsRan brings next

/-- The file system and the surroundings that come with an event. -/
def AppEvent.Brings : AppEvent Choice → Prop
  | .accept _ _ desk surroundings | .stray _ _ desk surroundings => brings desk surroundings
  | _ => True

end Definitions

section Words

variable {Choice : Type} [PythonText] [ChatFormat] [ValidationGates] {job next : DaemonJob Choice}
  {sid : String} {fields : Fields} {event : ProgressEvent}

omit [PythonText] [ChatFormat] [ValidationGates] in
theorem DaemonJob.Vouches.later (vouches : job.Vouches sid) (later : job.Later next) :
    next.Vouches sid := by
  rcases vouches with completed | ⟨finished, known⟩
  · exact .inl (later.completed sid completed)
  · exact .inr ⟨later.finished finished, by rwa [later.request]⟩

theorem DaemonJob.Ran.told (ran : job.Ran) :
    ∃ calm, PhaseTold calm job.request job.sources job.bridge job.bridge.phase := by
  let desk := job.desk
  rcases ran.reachable with ⟨start, events, isStart, runs⟩
  cases isStart
  exact ⟨_, (phaseTold_run runs).2⟩

/-- A job that is completed for the daemon is completed for its worker. -/
theorem DaemonJob.Ran.finished (ran : job.Ran) (completed : job.bridge.state = .completed) :
    job.Finished := by
  rcases ran.told with ⟨calm, told⟩
  exact told.completed completed

/-- The word that a source is complete has come from the worker. -/
theorem DaemonJob.Ran.completed (ran : job.Ran) (isQueued : some fields ∈ job.bridge.queue)
    (read : (loads (dumps fields)).bind ProgressEvent.ofFields = some event)
    (completes : event.kind = .sourceCompleted) : job.Completed event.sourceId := by
  rw [loads_dumps, Option.bind_some] at read
  rcases ran.told with ⟨calm, told⟩
  rcases told.queued isQueued with ⟨reported, isReported, rfl⟩ | ⟨message, entry, rfl⟩
  · rw [ofFields_payload, Option.some.injEq] at read
    subst read
    exact ⟨reported, isReported, completes, rfl⟩
  · unfold Bridge.failure at read
    split at read
    · rw [ofFields_payload, Option.some.injEq] at read
      subst read
      cases completes
    · cases read

/-- A job that has completed has completed each of its sources. -/
theorem DaemonJob.Ran.all (ran : job.Ran) (lawful : LawfulDesk job.desk job.surroundings)
    (finished : job.Finished) (known : sid ∈ job.request.sourceIds) : job.Completed sid := by
  let desk := job.desk
  have worker := workerReachable.reachable ran.reachable
  have lawfulJob := lawfulJob_of_accepted lawful.paths ran.accepted lawful.setups
  have books := (phaseBooks lawfulJob).reachable worker
  have isKey : sid ∈ keys job.sources := by
    rcases sources_ok_iff.mp ran.accepted with ⟨_, _, _, _, same⟩
    rw [same]
    simpa [keys] using known
  have ended : Ended job.sources job.bridge.worker := by
    have isEnded := finished.1
    cases phase : job.bridge.worker.phase with
    | ended => rwa [phase] at books
    | _ => simp [phase, JobPhase.isEnded] at isEnded
  have going : job.bridge.worker.state ≠ .cancelled := by
    rw [finished.2]
    exact JobState.noConfusion
  have quiet : ∀ event ∈ job.bridge.worker.events, event.kind ≠ .stageFailed := by
    rcases ended.state with cancelled | ⟨_, quiet⟩ | ⟨failed, _⟩
    · exact absurd cancelled going
    · exact quiet
    · cases finished.2.symm.trans failed
  rcases ended.ends going sid isKey with ⟨event, isEvent, own, isTerminal⟩
  exact ⟨event, isEvent, isTerminal.resolve_left (quiet event isEvent), own⟩

/-- A source that a job vouches for is published. -/
theorem DaemonJob.Ran.published (ran : job.Ran) (lawful : LawfulDesk job.desk job.surroundings)
    (apart : job.Apart) (vouches : job.Vouches sid) :
    job.Published sid := by
  let desk := job.desk
  have completed : job.Completed sid := by
    rcases vouches with completed | ⟨finished, known⟩
    · exact completed
    · exact ran.all lawful finished known
  have worker := workerReachable.reachable ran.reachable
  have lawfulJob := lawfulJob_of_accepted lawful.paths ran.accepted lawful.setups
  have both := (phaseMade (apartSources_of_accepted ran.accepted apart) lawfulJob).reachable worker
  rcases completed with ⟨event, isEvent, completes, rfl⟩
  exact both.2.all both.1 event isEvent completes

end Words

section Jobs

variable {Choice : Type} [PythonText] [ChatFormat] [ValidationGates]
  {brings : FileSystem → Surroundings Choice → Prop} {jobs next : List (String × DaemonJob Choice)}
  {jobId : String} {job after : DaemonJob Choice} {submission : Submission} {batch : Batch}

theorem JobsMove.refl (jobs : List (String × DaemonJob Choice)) : JobsMove brings jobs jobs :=
  ⟨fun _ job found => ⟨job, found, .refl job⟩, fun ran => ran⟩

/-- The daemon has accepted another job. -/
theorem JobsMove.concat (fresh : jobId ∉ keys jobs) (ran : job.Ran)
    (brought : brings job.desk job.surroundings) :
    JobsMove brings jobs (jobs ++ [(jobId, job)]) := by
  constructor
  · intro other known found
    have differ : other ≠ jobId := fun same => fresh (same ▸ mem_keys_of_lookup found)
    exact ⟨known, by rwa [lookup_concat fresh, if_neg differ], .refl known⟩
  · intro before other known found
    rw [lookup_concat fresh] at found
    split_ifs at found
    · cases found
      exact ⟨ran, brought⟩
    · exact before other known found

/-- A job has gone on. -/
theorem JobsMove.set (found : jobs.lookup jobId = some job) (later : job.Later after)
    (ran : job.Ran → after.Ran) (desk : after.desk = job.desk)
    (surroundings : after.surroundings = job.surroundings) :
    JobsMove brings jobs (dictSet jobId after jobs) := by
  constructor
  · intro other known isKnown
    rw [lookup_dictSet]
    split_ifs with same
    · subst same
      cases found.symm.trans isKnown
      exact ⟨after, rfl, later⟩
    · exact ⟨known, isKnown, .refl known⟩
  · intro before other known isKnown
    rw [lookup_dictSet] at isKnown
    split_ifs at isKnown
    · cases isKnown
      rw [desk, surroundings]
      exact ⟨ran (before jobId job found).1, (before jobId job found).2⟩
    · exact before other known isKnown

theorem Submission.Posted.move (posted : submission.Posted jobs)
    (move : JobsMove brings jobs next) : submission.Posted next := by
  refine ⟨posted.ids, posted.queued, ?_, posted.refused⟩
  intro jobId isMade
  rcases posted.made jobId isMade with ⟨job, found, same⟩
  rcases move.later jobId job found with ⟨after, isAfter, later⟩
  exact ⟨after, isAfter, by rw [later.request, same]⟩

theorem Batch.Shown.move {submission : Option Submission} (shown : batch.Shown jobs submission)
    (move : JobsMove brings jobs next) : batch.Shown next submission := by
  refine ⟨shown.running, shown.submitted, ?_, shown.ended⟩
  intro sid file found done
  rcases shown.vouched sid file found done with ⟨jobId, job, isJob, known, vouches⟩
  rcases move.later jobId job known with ⟨after, isAfter, later⟩
  exact ⟨jobId, after, isJob, isAfter, vouches.later later⟩

end Jobs

section Rows

variable {Choice : Type} {jobs : List (String × DaemonJob Choice)} {submission : Submission}
  {under : Option Submission} {batch next : Batch} {files : List FileRow} {file : FileRow}
  {now : ℕ} {jobId : String} {event : ProgressEvent} {error : Option String}

/-- What is not about the rows, the job or the state of a batch does not count. -/
theorem Batch.Shown.congr (shown : batch.Shown jobs under) (files : next.files = batch.files)
    (fileOrder : next.fileOrder = batch.fileOrder) (pipeline : next.pipeline = batch.pipeline)
    (state : next.state = batch.state) (isJob : next.jobId = batch.jobId) :
    next.Shown jobs under := by
  refine ⟨by rw [state, shown.running], ?_, ?_, ?_⟩
  · intro posted isPosted
    have submitted := shown.submitted posted isPosted
    exact ⟨isJob ▸ submitted.jobId, pipeline ▸ submitted.rows, fileOrder ▸ submitted.order⟩
  · rw [files, isJob]
    exact shown.vouched
  · rw [state, files]
    exact shown.ended

/-- A batch that is not shown running is not submitted. -/
theorem Batch.Shown.under_eq_none (shown : batch.Shown jobs under)
    (still : batch.state ≠ .running) : under = none := by
  cases under with
  | none => rfl
  | some posted => exact absurd (shown.running.mpr rfl) still

theorem Batch.submitted_none (batch : Batch) (posted : Submission)
    (isPosted : none = some posted) : batch.Submitted posted := by
  cases isPosted

/-- A batch is shown at rest with rows that wait. -/
theorem Batch.Shown.idle (rest : batch.state = .idle)
    (queued : ∀ sid file, batch.files.lookup sid = some file → file.status = .queued) :
    batch.Shown jobs none := by
  refine ⟨by simp [rest], batch.submitted_none, ?_, by simp [rest]⟩
  intro sid file found done
  cases (queued sid file found).symm.trans done

theorem queued_of_lookup_byId (once : (files.map FileRow.sourceId).Nodup)
    (queued : ∀ file ∈ files, file.status = .queued) :
    ∀ sid file, (byId files).lookup sid = some file → file.status = .queued :=
  fun _ file found => queued file (mem_of_lookup_byId once found).1

/-- A batch that has been started shows the rows of its submission. -/
theorem Batch.Shown.start (isFiles : submission.files = files) (fits : RowsFit batch.pipeline files)
    (queued : ∀ file ∈ files, file.status = .queued) (isJob : submission.phase.shownJob = jobId) :
    (batch.start now jobId files).Shown jobs (some submission) := by
  refine ⟨by simp [Batch.start], ?_, ?_, by simp [Batch.start]⟩
  · intro posted isPosted
    cases isPosted
    exact ⟨by simp [Batch.start, isJob], isFiles ▸ fits, by simp [Batch.start, isFiles]⟩
  · intro sid file found done
    cases (queued_of_lookup_byId fits.1 queued sid file found).symm.trans done

theorem Batch.Shown.changePipeline {pipeline : List Verb} (shown : batch.Shown jobs under)
    (tidy : batch.Tidy) (still : batch.state ≠ .running) :
    (batch.changePipeline pipeline).Shown jobs under := by
  have rows := (tidy.changePipeline pipeline).2
  cases shown.under_eq_none still
  refine ⟨shown.running, Batch.submitted_none _, ?_, ?_⟩
  · intro sid file found done
    rcases rows sid file found with ⟨before, isBefore, rfl⟩
    exact shown.vouched sid before isBefore done
  · intro isDone sid file found
    rcases rows sid file found with ⟨before, isBefore, rfl⟩
    exact shown.ended isDone sid before isBefore

theorem FileRow.finish_done (done : (file.finish now error).status = .done) :
    file.status = .done ∨ error = none := by
  cases error with
  | none => exact .inr rfl
  | some message =>
      unfold FileRow.finish at done
      dsimp only at done
      split_ifs at done with already
      exact .inl already

/-- The end of a submission: all rows are done on the word of the job that it has completed. -/
theorem Batch.Shown.finish (shown : batch.Shown jobs under) (isJob : batch.jobId = some jobId)
    (word : (error.filter fun message => message ≠ "") = none → ∃ job,
      jobs.lookup jobId = some job ∧ ∀ sid ∈ keys batch.files, job.Vouches sid) :
    (batch.finish now error).Shown jobs none := by
  refine ⟨?_, Batch.submitted_none _, ?_, ?_⟩
  · simp only [Batch.finish]
    split_ifs <;> simp
  · intro sid file found done
    simp only [Batch.finish, lookup_map_values, Option.map_eq_some_iff] at found
    rcases found with ⟨before, isBefore, rfl⟩
    rcases FileRow.finish_done done with already | well
    · exact shown.vouched sid before isBefore already
    · rcases word well with ⟨job, known, vouches⟩
      exact ⟨jobId, job, isJob, known, vouches sid (mem_keys_of_lookup isBefore)⟩
  · intro isDone sid file found
    simp only [Batch.finish, lookup_map_values, Option.map_eq_some_iff] at found isDone
    rcases found with ⟨before, isBefore, rfl⟩
    cases well : error.filter fun message => message ≠ "" with
    | none => rfl
    | some message =>
        rw [well] at isDone
        simp at isDone

variable [Browser]

theorem FileRow.progress_of_done (done : file.status = .done) :
    file.progress now event = file := by
  rw [FileRow.progress, if_pos (.inl done)]

theorem FileRow.progress_done (done : (file.progress now event).status = .done) :
    file.status = .done ∨ event.kind = .sourceCompleted := by
  by_cases over_ : file.status = .done ∨ file.status = .failed
  · rw [FileRow.progress, if_pos over_] at done
    exact .inl done
  · by_cases completes : event.kind = .sourceCompleted
    · exact .inr completes
    · rw [FileRow.progress, if_neg over_] at done
      dsimp only at done
      rw [if_neg completes] at done
      split_ifs at done

/-- An event of the job of a batch: a row is done on its word. -/
theorem Batch.Shown.progress (shown : batch.Shown jobs under) (tidy : batch.Tidy)
    (isJob : batch.jobId = some jobId) (isNext : batch.progress now event = some next)
    (word : event.kind = .sourceCompleted → ∃ job, jobs.lookup jobId = some job ∧
      job.Vouches event.sourceId) : next.Shown jobs under := by
  rcases tidy.progress isNext with ⟨row, isRow, rfl, _⟩
  refine ⟨shown.running, ?_, ?_, ?_⟩
  · intro posted isPosted
    have submitted := shown.submitted posted isPosted
    exact ⟨submitted.jobId, submitted.rows, submitted.order⟩
  · intro sid file found done
    dsimp only at found
    rw [lookup_dictSet] at found
    split_ifs at found with same
    · subst same
      cases found
      rcases FileRow.progress_done done with already | completes
      · exact shown.vouched _ row isRow already
      · rcases word completes with ⟨job, known, vouches⟩
        exact ⟨jobId, job, isJob, known, vouches⟩
    · exact shown.vouched sid file found done
  · intro isDone sid file found
    dsimp only at found
    rw [lookup_dictSet] at found
    split_ifs at found with same
    · cases found
      have already := shown.ended isDone _ row isRow
      rw [FileRow.progress_of_done already]
      exact already
    · exact shown.ended isDone sid file found

/-- What the user does to a batch. -/
theorem Batch.Shown.act {action : Action} {id : String} (shown : batch.Shown jobs under)
    (tidy : batch.Tidy) (free : action.isFree = true) (isTarget : action.target = some id) :
    (action.change now batch).Shown jobs under := by
  cases action with
  | pipelineChanged batchId pipeline =>
      simp only [Action.change]
      split_ifs with running
      · exact shown
      · exact shown.changePipeline tidy running
  | fileDiscoveryFailed batchId firstStep jobId error =>
      simp only [Action.change]
      split_ifs with wants
      · have still : batch.state ≠ .running := by
          simp only [Batch.wants, Bool.decide_and, Bool.and_eq_true, decide_eq_true_eq] at wants
          exact wants.1
        cases shown.under_eq_none still
        exact ⟨by simp, Batch.submitted_none _, shown.vouched, by simp⟩
      · exact shown
  | filesRediscovered | batchStarted | progressV2 | batchFinished | batchOpened => cases free
  | _ => exact shown.congr rfl rfl rfl rfl rfl

/-- A scan has found the files of a batch anew. -/
theorem Batch.Shown.rediscover {id : String} {firstStep : Option Verb} {shownId : Option String}
    {found : List FolderFile} (shown : batch.Shown jobs under)
    (once : (found.map FolderFile.sourceId).Nodup) :
    (Action.change now (.filesRediscovered id firstStep shownId (scanFolder found)) batch).Shown
      jobs under := by
  simp only [Action.change]
  split_ifs with wants
  · have still : batch.state ≠ .running := by
      simp only [Batch.wants, Bool.decide_and, Bool.and_eq_true, decide_eq_true_eq] at wants
      exact wants.1
    cases shown.under_eq_none still
    apply Batch.Shown.idle rfl
    apply queued_of_lookup_byId
    · simpa [scanFolder, Function.comp_def] using once
    · simp [scanFolder]
  · exact shown

end Rows

end Batchalign.Gui
