import Batchalign.Gui.Shown

/-!
# The app at work

Whatever the user does, whatever is lost on the way and whatever the daemon does for others: every
event keeps what the app shows of its jobs true. So a row that is shown done is published.
-/

namespace Batchalign.Gui

open Batchalign.Cli Batchalign.Compare Batchalign.Desktop Batchalign.Engine Batchalign.Morphosyntax
  JsonText Transition

section Moves

variable {Choice : Type} [Browser] [Panels] [PythonText] [ChatFormat] [ValidationGates]
  {brings : FileSystem → Surroundings Choice → Prop} {app next : App Choice} {state : AppState}
  {submission : Submission} {batch : Batch} {action : Action} {id batchId jobId : String} {now : ℕ}
  {error : Option String} {phase : SubmissionPhase} {found : List FolderFile}

omit [Panels] [PythonText] [ChatFormat] [ValidationGates] in
theorem lookup_reducer (tidy : state.Tidy) (isTarget : action.target = some id) (other : String) :
    (reducer now state action).batches.lookup other =
      if other = id then (state.batches.lookup id).map (action.change now)
      else state.batches.lookup other := by
  rw [reducer_eq_update tidy isTarget, lookup_update]

omit [Browser] [Panels] in
/-- One batch and its submission change, and the jobs go on. -/
theorem AppBooks.move {change : Batch → Batch} (books : AppBooks brings app)
    (tidy : next.store.Tidy) (jobs : JobsMove brings app.jobs next.jobs)
    (batches : ∀ other, next.store.batches.lookup other =
      if other = id then (app.store.batches.lookup id).map change
      else app.store.batches.lookup other)
    (others : ∀ other, other ≠ id →
      next.submissions.lookup other = app.submissions.lookup other)
    (posted : ∀ submission, next.submissions.lookup id = some submission →
      submission.Posted next.jobs)
    (shown : ∀ batch, app.store.batches.lookup id = some batch →
      batch.Shown next.jobs (app.submissions.lookup id) →
        (change batch).Shown next.jobs (next.submissions.lookup id)) : AppBooks brings next := by
  refine ⟨tidy, jobs.ran books.ran, ?_, ?_⟩
  · intro other submission found
    by_cases here : other = id
    · subst here
      exact posted submission found
    · rw [others other here] at found
      exact (books.posted other submission found).move jobs
  · intro other batch found
    rw [batches] at found
    split_ifs at found with here
    · subst here
      rcases Option.map_eq_some_iff.mp found with ⟨before, isBefore, rfl⟩
      exact shown before isBefore ((books.shown other before isBefore).move jobs)
    · rw [others other here]
      exact (books.shown other batch found).move jobs

omit [Browser] [Panels] in
/-- Nothing but the jobs changes, and some batches may go. -/
theorem AppBooks.still (books : AppBooks brings app) (tidy : next.store.Tidy)
    (jobs : JobsMove brings app.jobs next.jobs) (submissions : next.submissions = app.submissions)
    (batches : ∀ id batch, next.store.batches.lookup id = some batch →
      app.store.batches.lookup id = some batch) : AppBooks brings next := by
  refine ⟨tidy, jobs.ran books.ran, ?_, ?_⟩
  · intro id submission found
    rw [submissions] at found
    exact (books.posted id submission found).move jobs
  · intro id batch found
    rw [submissions]
    exact (books.shown id batch (batches id batch found)).move jobs

omit [Panels] in
/-- An action changes one batch, with its submission. -/
theorem AppBooks.moveBy (books : AppBooks brings app) (now : ℕ) (action : Action)
    (isTarget : action.target = some id) (fits : action.Fits app.store)
    (store : next.store = reducer now app.store action) (jobs : next.jobs = app.jobs)
    (others : ∀ other, other ≠ id →
      next.submissions.lookup other = app.submissions.lookup other)
    (posted : ∀ submission, next.submissions.lookup id = some submission →
      submission.Posted app.jobs)
    (shown : ∀ batch, app.store.batches.lookup id = some batch →
      batch.Shown app.jobs (app.submissions.lookup id) →
        (action.change now batch).Shown app.jobs (next.submissions.lookup id)) :
    AppBooks brings next := by
  have tidy : next.store.Tidy := by
    rw [store]
    exact books.tidy.reducer fits
  rw [← jobs] at posted shown
  refine books.move tidy (jobs ▸ .refl _) ?_ others posted shown
  intro other
  rw [store]
  exact lookup_reducer books.tidy isTarget other

omit [Panels] in
theorem AppBooks.act (books : AppBooks brings app) (free : action.isFree = true) :
    AppBooks brings (app.dispatch now action) := by
  have fits : action.Fits app.store := by
    cases action <;> trivial
  have tidy : (reducer now app.store action).Tidy := books.tidy.reducer fits
  cases isTarget : action.target with
  | some id =>
      refine books.moveBy now action isTarget fits rfl rfl (fun _ _ => rfl) (books.posted id) ?_
      intro batch found shown
      exact shown.act (books.tidy.batches id batch found).2 free isTarget
  | none =>
      refine books.still tidy (.refl _) rfl ?_
      intro id batch found
      cases action with
      | batchClosed batchId =>
          rw [App.dispatch, reducer, AppState.closed, lookup_filter_ne] at found
          split_ifs at found
          exact found
      | batchActivated batchId =>
          rw [App.dispatch, reducer] at found
          split_ifs at found <;> exact found
      | batchOpened => cases free
      | daemonReady | daemonFailed | daemonProgress | capabilitiesLoaded | settingsToggled
      | settingsUpdated => exact found
      | _ => cases isTarget

omit [Panels] in
theorem AppBooks.rediscover {firstStep : Option Verb} {shownId : Option String}
    (books : AppBooks brings app) (once : (found.map FolderFile.sourceId).Nodup) :
    AppBooks brings
      (app.dispatch now (.filesRediscovered batchId firstStep shownId (scanFolder found))) := by
  have fits : Action.Fits app.store
      (.filesRediscovered batchId firstStep shownId (scanFolder found)) := by
    constructor
    · simpa [scanFolder, Function.comp_def] using once
    · simp [scanFolder]
  refine books.moveBy now _ rfl fits rfl rfl (fun _ _ => rfl) (books.posted batchId) ?_
  intro batch _ shown
  exact shown.rediscover once

omit [Panels] in
/-- The tabs are closed one by one. -/
theorem AppBooks.closeAll (books : AppBooks brings app) (ids : List String) :
    AppBooks brings { app with
      store := ids.foldl (fun state id => reducer now state (.batchClosed id)) app.store } := by
  induction ids generalizing app with
  | nil => exact books
  | cons id ids ih =>
      have closed : AppBooks brings (app.dispatch now (.batchClosed id)) := books.act rfl
      exact ih closed

omit [Panels] in
theorem AppBooks.openFolder {path : String} {store : AppState} (books : AppBooks brings app)
    (fresh : id ∉ keys app.submissions) (once : (found.map FolderFile.sourceId).Nodup)
    (opens : Gui.openFolder now id path found app.store = some store) :
    AppBooks brings { app with store := store } := by
  unfold Gui.openFolder at opens
  split_ifs at opens
  cases opens
  have cleared : AppBooks brings { app with
      store := app.store.tabOrder.foldl (fun state id => reducer now state (.batchClosed id))
        app.store } := books.closeAll app.store.tabOrder
  have rowsOnce : ((scanFolder found).map FileRow.sourceId).Nodup := by
    simpa [scanFolder, Function.comp_def] using once
  have fits : RowsFit [] (scanFolder found) := by
    refine ⟨rowsOnce, ?_⟩
    intro file isFile
    rcases List.mem_map.mp isFile with ⟨other, _, rfl⟩
    exact ⟨rfl, rfl, fun _ isStage => absurd isStage List.not_mem_nil, Nat.zero_le _⟩
  have tidy : (folderBatch id path (scanFolder found)).Tidy := .ofRows rfl rfl fits
  refine ⟨cleared.tidy.opened tidy, cleared.ran, cleared.posted, ?_⟩
  intro other batch isShown
  rw [reducer, AppState.opened, lookup_dictSet] at isShown
  split_ifs at isShown with same
  · cases isShown
    subst same
    rw [lookup_eq_none_iff_notMem.mpr fresh]
    apply Batch.Shown.idle rfl
    apply queued_of_lookup_byId rowsOnce
    simp [scanFolder]
  · exact cleared.shown other batch isShown

end Moves

section Submissions

variable {Choice : Type} [Browser] [Panels] [PythonText] [ChatFormat] [ValidationGates]
  {brings : FileSystem → Surroundings Choice → Prop} {app next : App Choice} {state : AppState}
  {submission : Submission} {batch : Batch} {id batchId jobId : String} {now : ℕ}
  {error : Option String} {phase : SubmissionPhase} {job : DaemonJob Choice}

omit [Browser] [Panels] [PythonText] [ChatFormat] [ValidationGates] in
/-- The rows that are submitted are those of their ids. -/
theorem submittedRows_ids (tidy : batch.Tidy) {ids : List String} (known : ids ⊆ batch.fileOrder) :
    (submittedRows batch ids).map FileRow.sourceId = ids := by
  induction ids with
  | nil => rfl
  | cons id ids ih =>
      rw [List.cons_subset] at known
      rcases tidy.rowOf known.1 with ⟨file, found⟩
      have rest := ih known.2
      simp only [submittedRows] at rest
      simp [submittedRows, found, rest, (tidy.rows id file found).own]

omit [Browser] [PythonText] [ChatFormat] [ValidationGates] in
theorem submission_spec {submitting : List String} {request : DesktopRequest}
    {files : List FileRow} (tidy : state.Tidy)
    (posted : Gui.submission state submitting id = some (request, files)) :
    id ∉ submitting ∧ ∃ batch, state.batches.lookup id = some batch ∧
      RowsFit batch.pipeline files ∧ files.map FileRow.sourceId = request.sourceIds ∧
        ∀ file ∈ files, file.status = .queued := by
  unfold Gui.submission at posted
  cases found : state.batches.lookup id with
  | none => simp [found] at posted
  | some batch =>
      simp only [found] at posted
      split_ifs at posted with blocked empty
      cases posted
      have known := (tidy.batches id batch found).2
      have inside : filterFilesForVerb batch.files batch.fileOrder batch.pipeline.head? ⊆
          batch.fileOrder := List.filter_subset_self _
      have ids := submittedRows_ids known inside
      refine ⟨fun there => blocked (.inr (.inr (.inr there))), batch, rfl, ⟨?_, ?_⟩, ids, ?_⟩
      · rw [buildDesktopRequest, ids]
        exact known.once.filter _
      · intro file isFile
        rcases List.mem_filterMap.mp isFile with ⟨sid, _, isRow⟩
        rcases Option.map_eq_some_iff.mp isRow with ⟨before, _, rfl⟩
        exact ⟨rfl, makeStages_verbs _, makeStages_percents _, Nat.zero_le _⟩
      · intro file isFile
        rcases List.mem_filterMap.mp isFile with ⟨sid, _, isRow⟩
        rcases Option.map_eq_some_iff.mp isRow with ⟨before, _, rfl⟩
        rfl

omit [Browser] [Panels] [PythonText] [ChatFormat] [ValidationGates] in
theorem lookup_withPhase (app : App Choice) (id : String) (submission : Submission)
    (phase : SubmissionPhase) (other : String) :
    (app.withPhase id submission phase).submissions.lookup other =
      if other = id then some { submission with phase := phase }
      else app.submissions.lookup other :=
  lookup_dictSet id other _ app.submissions

omit [Browser] [Panels] [PythonText] [ChatFormat] [ValidationGates] in
theorem lookup_same {κ ν : Type*} [DecidableEq κ] {entries : List (κ × ν)} (key other : κ) :
    entries.lookup other =
      if other = key then (entries.lookup key).map (fun value => value)
      else entries.lookup other := by
  split_ifs with same
  · simp [same]
  · rfl

theorem AppBooks.start (books : AppBooks brings app) {request : DesktopRequest}
    {files : List FileRow}
    (posted : Gui.submission app.store (keys app.submissions) id = some (request, files)) :
    AppBooks brings { app.dispatch now (.batchStarted id "" files) with
      submissions := app.submissions ++ [(id, ⟨request, files, .posted⟩)] } := by
  rcases submission_spec books.tidy posted with ⟨fresh, batch, found, fits, ids, queued⟩
  have allFit : Action.Fits app.store (.batchStarted id "" files) := by
    intro other isOther
    cases found.symm.trans isOther
    exact fits
  refine books.moveBy now _ rfl allFit rfl rfl ?_ ?_ ?_
  · intro other differ
    simp only [lookup_concat fresh, if_neg differ]
  · intro submission isPosted
    simp only [lookup_concat fresh, if_true, Option.some.injEq] at isPosted
    subst isPosted
    refine ⟨ids, queued, ?_, ?_⟩
    · intro jobId isMade
      cases isMade
    · intro message isRefused
      cases isRefused
  · intro other isOther _
    cases found.symm.trans isOther
    simp only [lookup_concat fresh, if_true]
    exact .start rfl fits queued rfl

omit [Browser] [Panels] in
/-- The phase of a submission changes, and its batch shows the same job. -/
theorem AppBooks.withPhase (books : AppBooks brings app)
    (found : app.submissions.lookup id = some submission) (jobs : List (String × DaemonJob Choice))
    (move : JobsMove brings app.jobs jobs) (same : phase.shownJob = submission.phase.shownJob)
    (made : ∀ jobId, phase.madeJob = some jobId →
      ∃ job, jobs.lookup jobId = some job ∧ job.request.toDesktopRequest = submission.request)
    (refused : ∀ message, phase = .refused message → message ≠ "") :
    AppBooks brings { app.withPhase id submission phase with jobs := jobs } := by
  have posted := books.posted id submission found
  refine books.move books.tidy move (lookup_same id) ?_ ?_
    ?_
  · intro other differ
    rw [lookup_withPhase, if_neg differ]
  · intro other isPosted
    rw [lookup_withPhase, if_pos rfl, Option.some.injEq] at isPosted
    subst isPosted
    exact ⟨posted.ids, posted.queued, made, refused⟩
  · intro batch _ shown
    rw [lookup_withPhase, if_pos rfl]
    rw [found] at shown
    refine ⟨by simpa using shown.running, ?_, shown.vouched, shown.ended⟩
    intro other isOther
    cases isOther
    have submitted := shown.submitted submission rfl
    exact ⟨by rw [same]; exact submitted.jobId, submitted.rows, submitted.order⟩

omit [Browser] [Panels] in
/-- Between two polls and in one, the job is the same. -/
theorem AppBooks.poll (books : AppBooks brings app)
    (found : app.submissions.lookup id = some submission)
    (shown : phase.shownJob = submission.phase.shownJob)
    (made : phase.madeJob = submission.phase.madeJob)
    (refused : ∀ message, phase ≠ .refused message) :
    AppBooks brings (app.withPhase id submission phase) := by
  refine books.withPhase found app.jobs (.refl _) shown ?_ ?_
  · intro jobId isMade
    exact (books.posted id submission found).made jobId (made ▸ isMade)
  · intro message isRefused
    exact absurd isRefused (refused message)

omit [Panels] in
theorem AppBooks.respond (books : AppBooks brings app)
    (found : app.submissions.lookup id = some submission)
    (isPhase : submission.phase = .accepted jobId) (pumps : List (String × String)) :
    AppBooks brings { (app.dispatch now (.batchStarted id jobId submission.files)).withPhase id
      submission (.polling jobId 0) with pumps := pumps } := by
  have posted := books.posted id submission found
  have rows (batch : Batch) (isShown : app.store.batches.lookup id = some batch) :
      RowsFit batch.pipeline submission.files :=
    ((books.shown id batch isShown).submitted submission found).rows
  have phases (other : String) := lookup_withPhase
    (app.dispatch now (.batchStarted id jobId submission.files)) id submission (.polling jobId 0)
    other
  refine books.moveBy now (.batchStarted id jobId submission.files) rfl rows rfl rfl ?_ ?_ ?_
  · intro other differ
    exact (phases other).trans (if_neg differ)
  · intro other isPosted
    cases isPosted.symm.trans ((phases id).trans (if_pos rfl))
    refine ⟨posted.ids, posted.queued, ?_, ?_⟩
    · intro made isMade
      exact posted.made made (by rw [isPhase]; exact isMade)
    · intro message isRefused
      cases isRefused
  · intro batch isShown _
    have same := (phases id).trans (if_pos rfl)
    simp only [same]
    exact .start rfl (rows batch isShown) posted.queued rfl

omit [Browser] [Panels] [PythonText] [ChatFormat] [ValidationGates] in
theorem lookup_leave (app : App Choice) (id other : String) :
    (app.leave id).submissions.lookup other =
      if other = id then none else app.submissions.lookup other :=
  lookup_filter_ne

omit [Browser] [Panels] in
/-- A submission whose batch is gone is given up. -/
theorem AppBooks.leave (books : AppBooks brings app)
    (found : app.submissions.lookup id = some submission)
    (gone : (app.store.batches.lookup id).bind Batch.jobId ≠ some submission.phase.shownJob) :
    AppBooks brings (app.leave id) := by
  refine books.move books.tidy (.refl _) (lookup_same id)
    ?_ ?_ ?_
  · intro other differ
    rw [lookup_leave, if_neg differ]
  · intro other isPosted
    rw [lookup_leave, if_pos rfl] at isPosted
    cases isPosted
  · intro batch isShown shown
    refine absurd ?_ gone
    rw [isShown]
    exact (shown.submitted submission found).jobId

omit [Panels] in
/-- A submission comes to its end. -/
theorem AppBooks.finish (books : AppBooks brings app)
    (found : app.submissions.lookup id = some submission)
    (same : submission.phase.shownJob = jobId)
    (word : (error.filter fun message => message ≠ "") = none → ∃ job,
      app.jobs.lookup jobId = some job ∧ job.Finished ∧
        job.request.toDesktopRequest = submission.request) :
    AppBooks brings (app.finish now id jobId error) := by
  have leaves (other : String) :=
    lookup_leave (app.dispatch now (.batchFinished id jobId error)) id other
  refine books.moveBy now (.batchFinished id jobId error) rfl trivial rfl rfl ?_ ?_ ?_
  · intro other differ
    exact (leaves other).trans (if_neg differ)
  · intro other isPosted
    cases isPosted.symm.trans ((leaves id).trans (if_pos rfl))
  · intro batch isShown shown
    have gone := (leaves id).trans (if_pos rfl)
    have submitted := shown.submitted submission found
    have isJob : batch.jobId = some jobId := by rw [submitted.jobId, same]
    have rows := (books.tidy.batches id batch isShown).2
    simp only [App.finish, gone, Action.change, if_pos isJob]
    refine shown.finish isJob ?_
    intro well
    rcases word well with ⟨job, known, finished, sameRequest⟩
    refine ⟨job, known, ?_⟩
    intro sid isKey
    rw [rows.order, submitted.order, (books.posted id submission found).ids] at isKey
    exact .inr ⟨finished, by rw [sameRequest]; exact isKey⟩

omit [Panels] in
theorem AppBooks.fails {message : String} (books : AppBooks brings app)
    (found : app.submissions.lookup id = some submission)
    (same : submission.phase.shownJob = jobId) (said : message ≠ "") :
    AppBooks brings (app.finish now id jobId (some message)) :=
  books.finish found same fun well => by simp [said] at well

end Submissions

section Steps

variable {Choice : Type} [Browser] [Panels] [PythonText] [ChatFormat] [ValidationGates]
  {brings : FileSystem → Surroundings Choice → Prop} {app next : App Choice}
  {submission : Submission} {batchId jobId : String} {now : ℕ} {job : DaemonJob Choice}

omit [Panels] in
/-- An event of a job: a row is shown done on its word. -/
theorem AppBooks.progress {event : ProgressEvent} (books : AppBooks brings app)
    (word : event.kind = .sourceCompleted → ∃ job, app.jobs.lookup jobId = some job ∧
      job.Vouches event.sourceId) :
    AppBooks brings (app.dispatch now (.progressV2 batchId (some jobId) event)) := by
  refine books.moveBy now (.progressV2 batchId (some jobId) event) rfl trivial rfl rfl
    (fun _ _ => rfl) (books.posted batchId) ?_
  intro batch found shown
  have rows := (books.tidy.batches batchId batch found).2
  by_cases isJob : batch.jobId = some jobId
  · cases isNext : batch.progress now event with
    | none =>
        simp only [Action.change, isJob, or_true, if_true, isNext, Option.getD_none]
        exact shown
    | some next =>
        simp only [Action.change, isJob, or_true, if_true, isNext, Option.getD_some]
        exact shown.progress rows isJob isNext word
  · simp only [Action.change, isJob, reduceCtorEq, or_false, if_false]
    exact shown

omit [Panels] in
/-- An item that a pump has taken is lost, or it moves a row. -/
theorem AppBooks.relay {pump : String × String} {index : ℕ} {arrives : Bool}
    {item : Option Fields} (books : AppBooks brings app)
    (found : app.jobs.lookup pump.2 = some job)
    (isItem : job.bridge.queue[job.taken]? = some item) :
    AppBooks brings (app.relayed now index pump job arrives item) := by
  have ran := (books.ran pump.2 job found).1
  have later : job.Later { job with taken := job.taken + 1 } :=
    ⟨rfl, fun _ completed => completed, fun finished => finished⟩
  have moves : JobsMove brings app.jobs
      (dictSet pump.2 { job with taken := job.taken + 1 } app.jobs) :=
    .set found later (fun ran => ran.taken _) rfl rfl
  have quiet : AppBooks brings
      { app with jobs := dictSet pump.2 { job with taken := job.taken + 1 } app.jobs } :=
    books.still books.tidy moves rfl fun _ _ found => found
  unfold App.relayed
  dsimp only
  split
  · exact quiet.still quiet.tidy (.refl _) rfl fun _ _ found => found
  · split
    · next read =>
        apply quiet.progress
        intro completes
        refine ⟨_, (lookup_dictSet _ _ _ _).trans (if_pos rfl), .inl ?_⟩
        exact ran.completed (List.mem_of_getElem? isItem) read completes
    · exact quiet

omit [Panels] in
theorem AppBooks.polled (books : AppBooks brings app)
    (found : app.submissions.lookup batchId = some submission) {failures : ℕ}
    (isPhase : submission.phase = .fetching jobId failures)
    (isJob : app.jobs.lookup jobId = some job) :
    AppBooks brings (app.polled now batchId submission jobId job) := by
  have posted := books.posted batchId submission found
  have shownJob : submission.phase.shownJob = jobId := by rw [isPhase]; rfl
  have goesOn : AppBooks brings (app.withPhase batchId submission (.polling jobId 0)) :=
    books.poll found shownJob.symm (by rw [isPhase]; rfl) fun _ => SubmissionPhase.noConfusion
  have fails (state : JobState) : AppBooks brings (app.finish now batchId jobId
      (some ((job.bridge.error.filter (· ≠ "")).getD ("job " ++ stateName state)))) := by
    apply books.fails found shownJob
    cases reported : job.bridge.error.filter (· ≠ "") with
    | none => cases state <;> decide
    | some message => simpa using (Option.filter_eq_some_iff.mp reported).2
  unfold App.polled
  split
  · exact goesOn
  · exact goesOn
  · next completed =>
      refine books.finish found shownJob ?_
      intro _
      rcases posted.made jobId (by rw [isPhase]; rfl) with ⟨other, isOther, same⟩
      cases isJob.symm.trans isOther
      exact ⟨job, isJob, (books.ran jobId job isJob).1.finished completed, same⟩
  · exact fails _

/-- Every event keeps the books. -/
theorem AppBooks.step {event : AppEvent Choice} (books : AppBooks brings app)
    (brought : event.Brings brings) (steps : app.step now event = some next) :
    AppBooks brings next := by
  cases event with
  | act action =>
      rw [App.step] at steps
      split_ifs at steps with free
      cases steps
      exact books.act free
  | openFolder id path found =>
      rw [App.step] at steps
      split_ifs at steps with blocked
      rw [not_or, not_or, not_not] at blocked
      rcases Option.map_eq_some_iff.mp steps with ⟨store, opens, rfl⟩
      exact books.openFolder blocked.1 blocked.2.2 opens
  | rediscover batchId firstStep shownId found =>
      rw [App.step] at steps
      split_ifs at steps with once
      cases steps
      exact books.rediscover once
  | start batchId =>
      rcases Option.map_eq_some_iff.mp steps with ⟨⟨request, files⟩, posted, rfl⟩
      exact books.start posted
  | accept batchId jobId desk surroundings =>
      rcases Option.bind_eq_some_iff.mp steps with ⟨submission, found, steps⟩
      split_ifs at steps with blocked
      rw [not_or, not_or, not_not] at blocked
      rcases Option.map_eq_some_iff.mp steps with ⟨job, starts, rfl⟩
      have ran := startDesktopJob_ran starts
      refine books.withPhase found _ (.concat blocked.2.2 ran.1 ?_) (by rw [blocked.1]; rfl) ?_ ?_
      · rw [ran.2.2.1, ran.2.2.2]
        exact brought
      · intro made isMade
        cases isMade
        exact ⟨job, (lookup_concat blocked.2.2).trans (if_pos rfl), ran.2.1⟩
      · intro message isRefused
        cases isRefused
  | refuse batchId message =>
      rcases Option.bind_eq_some_iff.mp steps with ⟨submission, found, steps⟩
      split_ifs at steps with blocked
      cases steps
      rw [not_or, not_not] at blocked
      refine books.withPhase found app.jobs (.refl _) (by rw [blocked.1]; rfl) ?_ ?_
      · intro made isMade
        cases isMade
      · rintro other ⟨⟩
        exact blocked.2
  | respond batchId =>
      rcases Option.bind_eq_some_iff.mp steps with ⟨submission, found, steps⟩
      split at steps
      · next jobId isPhase =>
          cases steps
          exact books.respond found isPhase _
      · next message isPhase =>
          cases steps
          exact books.fails found (by rw [isPhase]; rfl)
            ((books.posted batchId submission found).refused message isPhase)
      · cases steps
  | lose batchId message =>
      rcases Option.bind_eq_some_iff.mp steps with ⟨submission, found, steps⟩
      split at steps
      · next isPhase =>
          split_ifs at steps with said
          cases steps
          exact books.fails found (by rw [isPhase]; rfl) said
      · next jobId isPhase =>
          split_ifs at steps with said
          cases steps
          exact books.fails found (by rw [isPhase]; rfl) said
      · cases steps
  | stray jobId request desk surroundings =>
      rw [App.step] at steps
      split_ifs at steps with blocked
      rw [not_or] at blocked
      rcases Option.map_eq_some_iff.mp steps with ⟨job, starts, rfl⟩
      have ran := startDesktopJob_ran starts
      refine books.still books.tidy (.concat blocked.2 ran.1 ?_) rfl fun _ _ found => found
      rw [ran.2.2.1, ran.2.2.2]
      exact brought
  | work jobId event =>
      rcases Option.bind_eq_some_iff.mp steps with ⟨job, found, steps⟩
      rcases Option.map_eq_some_iff.mp steps with ⟨after, works, rfl⟩
      have known := DaemonJob.step_later works
      exact books.still books.tidy (.set found known.1 known.2.1 known.2.2.1 known.2.2.2) rfl
        fun _ _ found => found
  | relay index arrives =>
      rcases Option.bind_eq_some_iff.mp steps with ⟨pump, _, steps⟩
      rcases Option.bind_eq_some_iff.mp steps with ⟨job, found, steps⟩
      rcases Option.map_eq_some_iff.mp steps with ⟨item, isItem, rfl⟩
      exact books.relay found isItem
  | check batchId =>
      rcases Option.bind_eq_some_iff.mp steps with ⟨submission, found, steps⟩
      split at steps
      · next jobId failures isPhase =>
          split_ifs at steps with same
          · cases steps
            exact books.poll found (by rw [isPhase]; rfl) (by rw [isPhase]; rfl)
              fun _ => SubmissionPhase.noConfusion
          · cases steps
            exact books.leave found (by rw [isPhase]; exact same)
      · cases steps
  | status batchId =>
      rcases Option.bind_eq_some_iff.mp steps with ⟨submission, found, steps⟩
      split at steps
      · next jobId failures isPhase =>
          rcases Option.map_eq_some_iff.mp steps with ⟨job, isJob, rfl⟩
          exact books.polled found isPhase isJob
      · cases steps
  | miss batchId message =>
      rcases Option.bind_eq_some_iff.mp steps with ⟨submission, found, steps⟩
      split at steps
      · next jobId failures isPhase =>
          split_ifs at steps with said late
          · cases steps
            exact books.fails found (by rw [isPhase]; rfl) said
          · cases steps
            exact books.poll found (by rw [isPhase]; rfl) (by rw [isPhase]; rfl)
              fun _ => SubmissionPhase.noConfusion
      · cases steps

end Steps

section Runs

variable {Choice : Type} [Browser] [Panels] [PythonText] [ChatFormat] [ValidationGates]
  {brings : FileSystem → Surroundings Choice → Prop} {app : App Choice}
  {events : List (ℕ × AppEvent Choice)} {id sid : String} {batch : Batch} {file : FileRow}

omit [Browser] [Panels] in
theorem appBooks_initial : AppBooks brings (⟨initial, [], [], []⟩ : App Choice) := by
  refine ⟨⟨List.nodup_nil, List.nodup_nil, fun _ => .rfl, ?_, fun _ => rfl, ?_⟩, ?_, ?_, ?_⟩
  · intro id isFront
    cases isFront
  · intro id batch found
    cases found
  · intro jobId job found
    cases found
  · intro id submission found
    cases found
  · intro id batch found
    cases found

theorem appBooks_run (brought : ∀ event ∈ events, event.2.Brings brings)
    (runs : (appSystem Choice).run ⟨initial, [], [], []⟩ events = some app) :
    AppBooks brings app :=
  System.run_of_kind (fun event => event.2.Brings brings)
    (fun _ _ _ brought books steps => books.step brought steps) brought appBooks_initial runs

theorem appBooks_of_reachable (reachable : (appSystem Choice).Reachable app) :
    AppBooks (fun _ _ => True) app := by
  rcases reachable with ⟨start, events, isStart, runs⟩
  cases isStart
  apply appBooks_run _ runs
  rintro ⟨now, event⟩ _
  cases event <;> exact trivial

/-- Whatever the user, the pumps and the daemon do: the store stays tidy, a batch is shown running
as long as it is submitted, and in a batch that is shown done so is every row. -/
theorem store_of_reachable (reachable : (appSystem Choice).Reachable app) :
    app.store.Tidy ∧ ∀ id batch, app.store.batches.lookup id = some batch →
      (batch.state = .running ↔ id ∈ keys app.submissions) ∧
      (batch.state = .done → ∀ sid file, batch.files.lookup sid = some file →
        file.status = .done) := by
  have books := appBooks_of_reachable reachable
  refine ⟨books.tidy, ?_⟩
  intro id batch found
  have shown := books.shown id batch found
  refine ⟨?_, shown.ended⟩
  rw [shown.running, Option.isSome_iff_ne_none, ne_eq, lookup_eq_none_iff_notMem, not_not]

/-- A row is shown done only when its outcome is published, by the job of its batch. -/
theorem done_row_published
    (runs : (appSystem Choice).run ⟨initial, [], [], []⟩ events = some app)
    (lawful : ∀ event ∈ events, event.2.Brings LawfulDesk)
    (isBatch : app.store.batches.lookup id = some batch)
    (isRow : batch.files.lookup sid = some file) (done : file.status = .done) :
    ∃ jobId job, batch.jobId = some jobId ∧ app.jobs.lookup jobId = some job ∧
      (job.Apart → job.Published sid) := by
  have books := appBooks_run lawful runs
  rcases (books.shown id batch isBatch).vouched sid file isRow done with
    ⟨jobId, job, isJob, known, vouches⟩
  have ran := books.ran jobId job known
  exact ⟨jobId, job, isJob, known, fun apart => ran.1.published ran.2 apart vouches⟩

end Runs

section Samples

instance : Browser where
  rounded completed total := (200 * completed + total) / (2 * total)

instance : Panels where
  languageCode raw := if raw = "eng" then raw else ""
  recipeKwargs _ _ := [("stanza_backend", .json "StanzaBackend")]

def transcript : List FolderFile := [⟨"a.cha", "a", "a.cha", 1, none, .chat⟩]

/-- A folder is opened, and its transcript is submitted. -/
def submitting : List (AppEvent Unit) :=
  [.openFolder "b" "/in" transcript, .act (.pipelineChanged "b" [.morphotag]),
    .rediscover "b" (some .morphotag) none transcript, .act (.batchInplaceChanged "b" false),
    .act (.batchOutputChanged "b" (some "/out")), .start "b", .accept "b" "1" desk quietDesk,
    .respond "b"]

/-- The job has ended. -/
def polling : List (AppEvent Unit) := [.relay 0 true, .check "b", .status "b"]

/-- The transcript is tagged. -/
def session : List (ℕ × AppEvent Unit) :=
  (submitting ++ (processEvents.map (AppEvent.work "1") ++ polling)).map fun event => (0, event)

theorem store_of_session :
    ∃ app, (appSystem Unit).run ⟨initial, [], [], []⟩ session = some app ∧ app.store.Tidy ∧
      app.submissions = [] := by
  have ends : ((appSystem Unit).run ⟨initial, [], [], []⟩ session).map
      (fun app => app.submissions.length) = some 0 := by
    decide +kernel
  rcases Option.map_eq_some_iff.mp ends with ⟨app, runs, none⟩
  exact ⟨app, runs, (store_of_reachable ⟨_, session, rfl, runs⟩).1, List.length_eq_zero_iff.mp none⟩

theorem DaemonJob.apart_of_single {job : DaemonJob Unit} {sid : String}
    (single : job.request.sourceIds = [sid]) : job.Apart := by
  let desk := job.desk
  refine Desktop.Apart.mk ?_ ?_
  · intro one isOne other isOther _ _ _
    rw [single, List.mem_singleton] at isOne isOther
    rw [isOne, isOther]
  · intro one isOne other isOther differ
    rw [single, List.mem_singleton] at isOne isOther
    exact absurd (isOne.trans isOther.symm) differ

/-- The transcript is shown done, and is published. -/
theorem session_published :
    ∃ app job, (appSystem Unit).run ⟨initial, [], [], []⟩ session = some app ∧
      app.jobs.lookup "1" = some job ∧ job.Published "a.cha" := by
  have ends : ((appSystem Unit).run ⟨initial, [], [], []⟩ session).map (fun app =>
      ((app.store.batches.lookup "b").map fun batch =>
        (batch.jobId, (batch.files.lookup "a.cha").map FileRow.status),
        app.jobs.map fun entry => (entry.1, entry.2.request.sourceIds))) =
      some (some (some "1", some .done), [("1", ["a.cha"])]) := by
    decide +kernel
  rcases Option.map_eq_some_iff.mp ends with ⟨app, runs, facts⟩
  rw [Prod.mk.injEq] at facts
  rcases Option.map_eq_some_iff.mp facts.1 with ⟨batch, isBatch, shown⟩
  rw [Prod.mk.injEq] at shown
  rcases Option.map_eq_some_iff.mp shown.2 with ⟨file, isRow, done⟩
  have lawful : ∀ event ∈ session, event.2.Brings LawfulDesk := by
    have place : LawfulDesk desk quietDesk := ⟨lawful_desk, handingOn_lawful⟩
    have works : ∀ event ∈ processEvents.map (AppEvent.work "1"), event.Brings LawfulDesk := by
      intro event isEvent
      rcases List.mem_map.mp isEvent with ⟨_, _, rfl⟩
      exact trivial
    rw [session, List.forall_mem_map, List.forall_mem_append, List.forall_mem_append]
    exact ⟨by simpa [submitting, AppEvent.Brings] using place, works,
      by simp [polling, AppEvent.Brings]⟩
  rcases done_row_published runs lawful isBatch isRow done with
    ⟨jobId, job, isJob, known, published⟩
  cases shown.1.symm.trans isJob
  have single : job.request.sourceIds = ["a.cha"] := by
    have isEntry := List.mem_map_of_mem (f := fun entry => (entry.1, entry.2.request.sourceIds))
      (mem_of_lookup known)
    rw [facts.2, List.mem_singleton] at isEntry
    exact congrArg Prod.snd isEntry
  exact ⟨app, job, runs, known, published (DaemonJob.apart_of_single single)⟩

end Samples

end Batchalign.Gui
