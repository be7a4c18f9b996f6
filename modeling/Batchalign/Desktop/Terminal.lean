import Batchalign.Desktop.Job

/-!
# One end for each source

Whatever the schedule of its threads and whatever its surroundings answer, a job reports at most
one end of a source, and nothing about the source after it. A job that is not cancelled reports
the end of every source, and completes exactly if none of them fails.
-/

namespace Batchalign.Desktop

open Batchalign.Chat Batchalign.Cli Batchalign.Compare Batchalign.Engine Batchalign.Morphosyntax
  DispatchWindow Transition

section Settled

/-- Nothing about a source follows its end. -/
def Settled (events : List WireEvent) : Prop :=
  events.Pairwise fun earlier later => earlier.isTerminal → later.sourceId ≠ earlier.sourceId

variable {Choice : Type} {events : List WireEvent} {event : WireEvent} {sid : String}
  {job next : JobRun Choice} {done : String → Prop} {step : DesktopStep}

theorem Settled.append (settled : Settled events)
    (open_ : ∀ earlier ∈ events, earlier.isTerminal → earlier.sourceId ≠ event.sourceId) :
    Settled (events ++ [event]) := by
  refine List.pairwise_append.mpr ⟨settled, List.pairwise_singleton _ _, ?_⟩
  intro earlier isEarlier later isLater terminal
  rw [List.mem_singleton.mp isLater]
  exact (open_ earlier isEarlier terminal).symm

/-- The events and the errors of a job, of which these sources have completed. -/
structure Core (done : String → Prop) (job : JobRun Choice) : Prop where
  settled : Settled job.events
  terminal : ∀ event ∈ job.events, event.isTerminal →
    event.kind = .stageFailed ∧ event.sourceId ∈ keys job.errors ∨
      event.kind = .sourceCompleted ∧ done event.sourceId
  failed : ∀ sid ∈ keys job.errors, ∃ event ∈ job.events,
    event.sourceId = sid ∧ event.kind = .stageFailed
  completed : ∀ sid, done sid → ∃ event ∈ job.events,
    event.sourceId = sid ∧ event.kind = .sourceCompleted

theorem Core.open_ (core : Core done job) (noError : sid ∉ keys job.errors) (notDone : ¬ done sid) :
    ∀ earlier ∈ job.events, earlier.isTerminal → earlier.sourceId ≠ sid := by
  intro earlier isEarlier terminal same
  rcases core.terminal earlier isEarlier terminal with ⟨_, isError⟩ | ⟨_, isDone⟩
  · exact noError (same ▸ isError)
  · exact notDone (same ▸ isDone)

/-- The rest of the job does not matter. -/
theorem Core.congr (core : Core done job) (events : next.events = job.events)
    (errors : next.errors = job.errors) : Core done next := by
  rcases core with ⟨settled, terminal, failed, completed⟩
  rw [← events] at settled terminal failed completed
  rw [← errors] at terminal failed
  exact ⟨settled, terminal, failed, completed⟩

theorem Core.report (core : Core done job) (event : WireEvent)
    (noError : event.sourceId ∉ keys job.errors)
    (notDone : ¬ done event.sourceId) (goesOn : ¬ event.isTerminal) :
    Core done (job.report event) := by
  refine ⟨core.settled.append (core.open_ noError notDone), ?_, ?_, ?_⟩
  · intro other isOther terminal
    rcases List.mem_append.mp isOther with earlier | isLast
    · exact core.terminal other earlier terminal
    · rw [List.mem_singleton.mp isLast] at terminal
      exact absurd terminal goesOn
  · intro other isError
    rcases core.failed other isError with ⟨earlier, isEarlier, known⟩
    exact ⟨earlier, List.mem_append_left _ isEarlier, known⟩
  · intro other isDone
    rcases core.completed other isDone with ⟨earlier, isEarlier, known⟩
    exact ⟨earlier, List.mem_append_left _ isEarlier, known⟩

/-- A source that is still open fails. -/
theorem Core.failWith (core : Core done job) (event : WireEvent)
    (noError : event.sourceId ∉ keys job.errors)
    (notDone : ¬ done event.sourceId) (fails : event.kind = .stageFailed)
    (events : next.events = job.events ++ [event])
    (errors : ∃ message, next.errors = dictSet event.sourceId message job.errors) :
    Core done next := by
  rcases errors with ⟨message, errors⟩
  refine ⟨?_, ?_, ?_, ?_⟩
  · rw [events]
    exact core.settled.append (core.open_ noError notDone)
  · intro other isOther terminal
    rw [errors, mem_keys_dictSet]
    rw [events] at isOther
    rcases List.mem_append.mp isOther with earlier | isLast
    · rcases core.terminal other earlier terminal with ⟨isFailure, isError⟩ | isDone
      · exact .inl ⟨isFailure, .inr isError⟩
      · exact .inr isDone
    · rw [List.mem_singleton.mp isLast]
      exact .inl ⟨fails, .inl rfl⟩
  · intro other isError
    rw [errors, mem_keys_dictSet] at isError
    rw [events]
    rcases isError with rfl | isError
    · exact ⟨event, by simp, rfl, fails⟩
    · rcases core.failed other isError with ⟨earlier, isEarlier, known⟩
      exact ⟨earlier, List.mem_append_left _ isEarlier, known⟩
  · intro other isDone
    rw [events]
    rcases core.completed other isDone with ⟨earlier, isEarlier, known⟩
    exact ⟨earlier, List.mem_append_left _ isEarlier, known⟩

theorem Core.fail (core : Core done job) (noError : sid ∉ keys job.errors) (notDone : ¬ done sid)
    (step : DesktopStep) (message : String) : Core done (job.fail step sid message) :=
  core.failWith (stepEvent sid .stageFailed step (some message)) noError notDone rfl rfl
    ⟨message, rfl⟩

/-- A source that is still open completes. -/
theorem Core.complete (core : Core done job) (event : WireEvent)
    (noError : event.sourceId ∉ keys job.errors)
    (notDone : ¬ done event.sourceId) (completes : event.kind = .sourceCompleted) :
    Core (fun sid => done sid ∨ sid = event.sourceId) (job.report event) := by
  refine ⟨core.settled.append (core.open_ noError notDone), ?_, ?_, ?_⟩
  · intro other isOther terminal
    rcases List.mem_append.mp isOther with earlier | isLast
    · rcases core.terminal other earlier terminal with isError | ⟨isEnd, isDone⟩
      · exact .inl isError
      · exact .inr ⟨isEnd, .inl isDone⟩
    · rw [List.mem_singleton.mp isLast]
      exact .inr ⟨completes, .inr rfl⟩
  · intro other isError
    rcases core.failed other isError with ⟨earlier, isEarlier, known⟩
    exact ⟨earlier, List.mem_append_left _ isEarlier, known⟩
  · rintro other (isDone | rfl)
    · rcases core.completed other isDone with ⟨earlier, isEarlier, known⟩
      exact ⟨earlier, List.mem_append_left _ isEarlier, known⟩
    · exact ⟨event, by simp [JobRun.report], rfl, completes⟩

end Settled

section Sources

variable {Choice : Type} {sources : List (String × PurePath)} {sid id : String}
  {path : PurePath}

/-- The sources of an accepted request, whose paths survive as ids of the engine. -/
structure LawfulSources (sources : List (String × PurePath)) : Prop where
  ids : (keys sources).Nodup
  texts : ∀ one ∈ sources, ∀ other ∈ sources, one.2.text = other.2.text → one = other
  trimmed : ∀ entry ∈ sources, absoluteId entry.2 = entry.2.text
  rooted : ∀ entry ∈ sources, '/' ∈ entry.2.text.toList

/-- The names that are not paths, such as that of a reference. -/
def Foreign (name : String) : Prop := '/' ∉ name.toList

/-- The pipelines work on the sources they are given, under the ids they are given. -/
structure LawfulSetup (setup : Setup Choice) : Prop where
  keeps : ∀ choice, PipelineKeepsSource { setup.inner with runners := setup.answers choice }
  converts : ∀ data id value, setup.convert data id = .ok value →
    value.toValue.sourceId = id ∧ ∀ name ∈ value.toValue.names, name = id ∨ Foreign name

theorem LawfulSources.sourceOf (lawful : LawfulSources sources) (isSource : (sid, path) ∈ sources) :
    sourceOf sources (absoluteId path) = some sid := by
  rw [Desktop.sourceOf, lawful.trimmed _ isSource]
  cases found : sources.find? fun entry => entry.2.text = path.text with
  | none =>
      have differ := List.find?_eq_none.mp found _ isSource
      simp at differ
  | some entry =>
      have same : entry.2.text = path.text := by simpa using List.find?_some found
      rw [lawful.texts entry (List.mem_of_find?_eq_some found) _ isSource same]
      rfl

theorem LawfulSources.sourceOf_foreign (lawful : LawfulSources sources) (foreign : Foreign id) :
    Desktop.sourceOf sources id = none := by
  rw [Desktop.sourceOf, Option.map_eq_none_iff, List.find?_eq_none]
  intro entry isSource same
  have same : entry.2.text = id := by simpa using same
  exact foreign (same ▸ lawful.rooted entry isSource)

end Sources

section Preparing

variable {Choice : Type} {surroundings : Surroundings Choice}
  {sources rest : List (String × PurePath)} {step : DesktopStep} {setup : Setup Choice}
  {job next : JobRun Choice} {inputs : List (String × SourceInput)}

/-- What does not change while a stage reports. -/
structure SameFrame (job next : JobRun Choice) : Prop where
  state : next.state = job.state
  index : next.index = job.index
  stages : next.stages = job.stages
  current : next.current = job.current

theorem SameFrame.refl (job : JobRun Choice) : SameFrame job job := ⟨rfl, rfl, rfl, rfl⟩

theorem SameFrame.trans {later : JobRun Choice} (first : SameFrame job next)
    (second : SameFrame next later) : SameFrame job later :=
  ⟨second.state.trans first.state, second.index.trans first.index,
    second.stages.trans first.stages, second.current.trans first.current⟩

/-- Each of these sources has an input or an error. -/
structure Prepared (sources rest : List (String × PurePath)) (job next : JobRun Choice)
    (inputs : List (String × SourceInput)) : Prop where
  core : Core (fun _ => False) next
  frame : SameFrame job next
  pending : next.pending = job.pending
  ids : (keys inputs).Sublist (keys rest)
  refused : ∀ sid ∈ keys rest, sid ∉ keys inputs → sid ∈ keys next.errors
  accepted : ∀ sid ∈ keys inputs, sid ∉ keys next.errors
  errors : ∀ sid ∈ keys job.errors, sid ∈ keys next.errors
  named : ∀ entry ∈ inputs, ∃ source, (entry.1, source) ∈ sources ∧
    Named Foreign (absoluteId source) entry.2
  elsewhere : ∀ sid ∉ keys rest, sid ∈ keys next.errors → sid ∈ keys job.errors

variable [FileSystem]

theorem prepared (surroundings : Surroundings Choice) (step : DesktopStep)
    (lawful : LawfulSetup setup) (core : Core (fun _ => False) job)
    (nodup : (keys rest).Nodup) (known : keys rest ⊆ keys sources)
    (clean : ∀ sid ∈ keys rest, sid ∉ keys job.errors) :
    Prepared sources rest job (prepare surroundings sources step setup job rest).1
      (prepare surroundings sources step setup job rest).2 := by
  induction rest generalizing job with
  | nil =>
      exact ⟨core, .refl job, rfl, List.Sublist.refl _, nofun, nofun, fun _ isError => isError,
        nofun, fun _ _ isError => isError⟩
  | cons entry rest ih =>
      rcases entry with ⟨sid, path⟩
      rw [keys_cons, List.nodup_cons] at nodup
      rw [keys_cons] at known clean
      have fresh := clean sid List.mem_cons_self
      have started := core.report (stepEvent sid .stageStarted step none) fresh id
        (by simp [WireEvent.isTerminal, stepEvent])
      rw [prepare]
      dsimp only
      cases made : makeInput step ((sources.lookup sid).getD path) path sid with
      | error message =>
          have failed := started.fail fresh id step message
          have cleanRest : ∀ other ∈ keys rest, other ∉
              keys ((job.report (stepEvent sid .stageStarted step none)).fail step sid
                message).errors := by
            intro other isRest isError
            rcases mem_keys_dictSet.mp isError with rfl | isError
            · exact nodup.1 isRest
            · exact clean other (List.mem_cons_of_mem _ isRest) isError
          have later := ih failed nodup.2 (fun _ isRest => known (List.mem_cons_of_mem _ isRest))
            cleanRest
          refine ⟨later.core, ⟨later.frame.state, later.frame.index, later.frame.stages,
            later.frame.current⟩, later.pending, later.ids.cons _, ?_, later.accepted, ?_,
            later.named, ?_⟩
          · intro other isSource noInput
            rcases List.mem_cons.mp isSource with rfl | isRest
            · exact later.errors _ (mem_keys_dictSet.mpr (.inl rfl))
            · exact later.refused other isRest noInput
          · exact fun other isError => later.errors other (mem_keys_dictSet.mpr (.inr isError))
          · intro other noSource isError
            rw [keys_cons, List.mem_cons, not_or] at noSource
            exact (mem_keys_dictSet.mp (later.elsewhere other noSource.2 isError)).resolve_left
              noSource.1
      | ok spec =>
          have later := ih started nodup.2 (fun _ isRest => known (List.mem_cons_of_mem _ isRest))
            (fun other isRest => clean other (List.mem_cons_of_mem _ isRest))
          rcases exists_lookup_of_mem (known List.mem_cons_self) with ⟨source, isSource⟩
          refine ⟨later.core, ⟨later.frame.state, later.frame.index, later.frame.stages,
            later.frame.current⟩, later.pending, later.ids.cons_cons sid, ?_, ?_, later.errors,
            ?_, ?_⟩
          · intro other isSource noInput
            rw [keys_cons, List.mem_cons, not_or] at noInput
            exact later.refused other ((List.mem_cons.mp isSource).resolve_left noInput.1)
              noInput.2
          · intro other isInput isError
            rcases List.mem_cons.mp isInput with rfl | isInput
            · exact fresh (later.elsewhere _ nodup.1 isError)
            · exact later.accepted other isInput isError
          · intro entry isInput
            rcases List.mem_cons.mp isInput with rfl | isInput
            · refine ⟨source, mem_of_lookup isSource, ?_⟩
              rw [isSource]
              exact ⟨rfl, fun value converted => lawful.converts _ _ value converted⟩
            · exact later.named entry isInput
          · intro other noSource isError
            rw [keys_cons, List.mem_cons, not_or] at noSource
            exact later.elsewhere other noSource.2 isError

end Preparing

section Callbacks

variable {Choice : Type} {sources : List (String × PurePath)} {stage : Stage}
  {job next : JobRun Choice} {event : ProgressEvent} {sid : String} {path : PurePath}
  {done : String → Prop} {value : BAValue}

/-- What a callback does to the books: at most it fails this source. -/
structure CalledBack (done : String → Prop) (sid : String) (job next : JobRun Choice) : Prop where
  core : Core done next
  frame : SameFrame job next
  errors : ∀ other, other ∈ keys job.errors → other ∈ keys next.errors
  failed : ∀ other, other ∈ keys next.errors → other ∈ keys job.errors ∨ other = sid

theorem CalledBack.refl (core : Core done job) : CalledBack done sid job job :=
  ⟨core, .refl job, fun _ isError => isError, fun _ => .inl⟩

theorem CalledBack.fail (core : Core done job) (noError : sid ∉ keys job.errors)
    (notDone : ¬ done sid) (step : DesktopStep) (message : String) :
    CalledBack done sid job (job.fail step sid message) :=
  ⟨core.fail noError notDone step message, ⟨rfl, rfl, rfl, rfl⟩,
    fun _ isError => mem_keys_dictSet.mpr (.inr isError),
    fun _ isError => (mem_keys_dictSet.mp isError).symm⟩

theorem CalledBack.keep (core : Core done job) (noError : sid ∉ keys job.errors)
    (notDone : ¬ done sid) (target : PurePath) (files : List (PurePath × Content)) :
    CalledBack done sid job (job.keep stage sid target files) := by
  refine ⟨?_, ⟨rfl, rfl, rfl, rfl⟩, fun _ isError => isError, fun _ => .inl⟩
  have injected := core.report (stepEvent sid .stageInjected stage.step none) noError
    notDone (by simp [WireEvent.isTerminal, stepEvent])
  cases final : stage.finalStage with
  | false => exact core.congr (by simp [JobRun.keep, final]) rfl
  | true => exact injected.congr (by simp [JobRun.keep, JobRun.report, final]) rfl

/-- An event reaches the source it is about, unless that has ended. It fails the source only if
it is a failure. -/
theorem progress_spec (stage : Stage) (core : Core done job)
    (found : sourceOf sources event.sourceId = some sid)
    (open_ : sid ∈ keys job.errors → event.kind = .sourceCompleted) (notDone : ¬ done sid) :
    CalledBack done sid job (job.progress sources stage event) ∧
      (job.progress sources stage event).pending = job.pending ∧
        (sid ∈ keys (job.progress sources stage event).errors → sid ∉ keys job.errors →
          event.kind = .stageFailed) := by
  rw [JobRun.progress, found]
  dsimp only
  split_ifs with dropped fails
  · exact ⟨.refl core, rfl, fun isError noError => absurd isError noError⟩
  · have noError : sid ∉ keys job.errors := fun isError =>
      dropped (.inl (open_ isError))
    refine ⟨⟨core.failWith ⟨sid, event.kind, stage.step.recipe.task, event.completed,
      event.total, some event.label⟩ noError notDone fails rfl ⟨_, rfl⟩, ⟨rfl, rfl, rfl, rfl⟩,
      ?_, ?_⟩, rfl, fun _ _ => fails⟩
    · exact fun _ isError => mem_keys_dictSet.mpr (.inr isError)
    · exact fun _ isError => (mem_keys_dictSet.mp isError).symm
  · have noError : sid ∉ keys job.errors := fun isError =>
      dropped (.inl (open_ isError))
    have goesOn : ¬ WireEvent.isTerminal ⟨sid, event.kind, stage.step.recipe.task,
        event.completed, event.total, some event.label⟩ := by
      rintro (failed | completed)
      · exact fails failed
      · exact dropped (.inl completed)
    exact ⟨⟨core.report _ noError notDone goesOn, ⟨rfl, rfl, rfl, rfl⟩, fun _ isError => isError,
      fun _ => .inl⟩, rfl, fun isError noError => absurd isError noError⟩

/-- An event about no source of the job is passed over. -/
theorem progress_foreign (unknown : sourceOf sources event.sourceId = none) :
    job.progress sources stage event = job := by
  rw [JobRun.progress, unknown]

variable [ChatFormat]

/-- An outcome is staged, or its source fails. Nothing is raised into the pipeline. -/
theorem outcome_spec (workdir : PurePath) (stage : Stage) (disk : Option String)
    (core : Core done job)
    (found : sourceOf sources value.sourceId = some sid) (noError : sid ∉ keys job.errors)
    (notDone : ¬ done sid) :
    (job.outcome workdir sources stage value disk).2 = none ∧
      CalledBack done sid job (job.outcome workdir sources stage value disk).1 ∧
      ((job.outcome workdir sources stage value disk).1.pending = job.pending ∨
        (∃ target, (job.outcome workdir sources stage value disk).1.pending =
          dictSet sid target job.pending) ∧
            (job.outcome workdir sources stage value disk).1.errors = job.errors) := by
  rw [JobRun.outcome, found]
  dsimp only
  split_ifs
  · exact ⟨rfl, .refl core, .inl rfl⟩
  · cases stageOutcome workdir job.index stage sid value disk with
    | error message => exact ⟨rfl, .fail core noError notDone stage.step message, .inl rfl⟩
    | ok staged => exact ⟨rfl, .keep core noError notDone staged.1 staged.2, .inr ⟨⟨_, rfl⟩, rfl⟩⟩

end Callbacks

section Running

variable {Choice : Type} [ChatFormat] [ValidationGates]
  {surroundings : Surroundings Choice} {sources : List (String × PurePath)} {setup : Setup Choice}
  {stage : Stage} {workers : ℕ} {job next : JobRun Choice} {ids : List String}
  {run later : SourceRun} {pool moved : StagePool} {sid : String}
  {event : RunEvent Choice (Option String)}

omit [ChatFormat] [ValidationGates] in
theorem place_unique {place position : ℕ} (nodup : ids.Nodup) (here : ids[place]? = some sid)
    (there : ids[position]? = some sid) : place = position := by
  rcases List.getElem?_eq_some_iff.mp here with ⟨inside, isHere⟩
  rcases List.getElem?_eq_some_iff.mp there with ⟨inside', isThere⟩
  exact (nodup.getElem_inj_iff).mp (isHere.trans isThere.symm)

/-- A job in the loop. Every source goes on or has failed. -/
structure Working (sources : List (String × PurePath)) (job : JobRun Choice) : Prop where
  core : Core (fun _ => False) job
  nodup : (keys job.current).Nodup
  known : keys job.current ⊆ keys sources
  covered : job.state ≠ .cancelled →
    ∀ sid ∈ keys sources, sid ∈ keys job.current ∨ sid ∈ keys job.errors

/-- The place of a source in a run has reported its failure, or has handed its outcome over. -/
def EndedAt (run : SourceRun) (place : ℕ) : Prop :=
  (∃ event ∈ run.logAt place, event.kind = .stageFailed) ∨ place ∈ run.delivered.map Prod.fst

/-- A stage whose pipeline is running, with the sources it was given. -/
structure Running (sources : List (String × PurePath)) (setup : Setup Choice) (workers : ℕ)
    (job : JobRun Choice) (ids : List String) (run : SourceRun) : Prop where
  lawful : Lawful (runPolicy setup.inner setup.answers workers) run
  going : run.stopped = none
  mode : run.mode = .callback false
  nodup : ids.Nodup
  known : ids ⊆ keys job.current
  length : run.jobs.length = ids.length
  jobs : ∀ (place : ℕ) sid, ids[place]? = some sid → ∃ source input, (sid, source) ∈ sources ∧
    run.jobs[place]? = some (.object input) ∧ Named Foreign (absoluteId source) input
  refused : ∀ sid ∈ keys job.current, sid ∉ ids → sid ∈ keys job.errors
  ended : ∀ (place : ℕ) sid, ids[place]? = some sid → sid ∈ keys job.errors → EndedAt run place
  staged : ∀ (place : ℕ) sid, ids[place]? = some sid → sid ∈ keys job.pending →
    place ∈ run.delivered.map Prod.fst ∧ sid ∉ keys job.errors
  pending : keys job.pending ⊆ ids
  pendingNodup : (keys job.pending).Nodup

omit [ChatFormat] [ValidationGates] in
theorem Working.calledBack (working : Working sources job)
    (called : CalledBack (fun _ => False) sid job next) : Working sources next := by
  refine ⟨called.core, ?_, ?_, ?_⟩
  · rw [called.frame.current]
    exact working.nodup
  · rw [called.frame.current]
    exact working.known
  · rw [called.frame.current, called.frame.state]
    intro alive other isSource
    exact (working.covered alive other isSource).imp_right (called.errors other)

/-- What a place in the window has to do is the work on its source. -/
theorem Running.slot (running : Running sources setup workers job ids run)
    (lawfulSetup : LawfulSetup setup) {slot : Slot SourceJob ProgressEvent SourceResult}
    (isSlot : slot ∈ run.slots) :
    ∃ sid source, ids[slot.place]? = some sid ∧ (sid, source) ∈ sources ∧
      ∀ choice notices result,
        (runPolicy setup.inner setup.answers workers).behave choice slot.job = (notices, result) →
          JobReports Foreign (absoluteId source) (notices, result) := by
  have isJob := (running.lawful.slots slot isSlot).1
  have inside : slot.place < ids.length := by
    rw [← running.length]
    exact (List.getElem?_eq_some_iff.mp isJob).1
  have isId : ids[slot.place]? = some ids[slot.place] := List.getElem?_eq_getElem inside
  rcases running.jobs _ _ isId with ⟨source, input, isSource, isInput, named⟩
  rw [isJob, Option.some.injEq] at isInput
  refine ⟨_, source, isId, isSource, ?_⟩
  intro choice notices result behaves
  rw [← behaves, isInput]
  exact runJob_reports (lawfulSetup.keeps choice) named

/-- The books of a stage follow those of its run. -/
theorem Running.update (running : Running sources setup workers job ids run)
    (lawful : Lawful (runPolicy setup.inner setup.answers workers) later)
    (going : later.stopped = none) (mode : later.mode = run.mode) (jobs : later.jobs = run.jobs)
    (ended : ∀ place, EndedAt run place → EndedAt later place)
    (delivered : ∀ place ∈ run.delivered.map Prod.fst, place ∈ later.delivered.map Prod.fst)
    (frame : SameFrame job next) (kept : ∀ other ∈ keys job.errors, other ∈ keys next.errors)
    (errors : ∀ (place : ℕ) other, ids[place]? = some other → other ∈ keys next.errors →
      other ∉ keys job.errors → EndedAt later place)
    (pending : ∀ other ∈ keys next.pending, other ∈ keys job.pending ∨
      ∃ place : ℕ, ids[place]? = some other ∧ place ∈ later.delivered.map Prod.fst)
    (apart : ∀ other ∈ keys next.pending, other ∉ keys next.errors)
    (pendingNodup : (keys next.pending).Nodup) :
    Running sources setup workers next ids later := by
  refine ⟨lawful, going, mode.trans running.mode, running.nodup, ?_, ?_, ?_, ?_, ?_, ?_, ?_,
    pendingNodup⟩
  · rw [frame.current]
    exact running.known
  · rw [jobs]
    exact running.length
  · rw [jobs]
    exact running.jobs
  · rw [frame.current]
    exact fun other isCurrent noInput => kept other (running.refused other isCurrent noInput)
  · intro place other isId isError
    by_cases before : other ∈ keys job.errors
    · exact ended place (running.ended place other isId before)
    · exact errors place other isId isError before
  · intro place other isId isPending
    refine ⟨?_, apart other isPending⟩
    rcases pending other isPending with before | ⟨position, isOther, handed⟩
    · exact delivered place (running.staged place other isId before).1
    · rwa [place_unique running.nodup isId isOther]
  · intro other isPending
    rcases pending other isPending with before | ⟨position, isOther, _⟩
    · exact running.pending before
    · exact List.mem_of_getElem? isOther

theorem Running.apart (running : Running sources setup workers job ids run) :
    ∀ other ∈ keys job.pending, other ∉ keys job.errors := by
  intro other isPending
  rcases List.getElem?_of_mem (running.pending isPending) with ⟨place, isId⟩
  exact (running.staged place other isId isPending).2

/-- The run moves and the job does not notice. -/
theorem Running.quiet (running : Running sources setup workers job ids run)
    (lawful : Lawful (runPolicy setup.inner setup.answers workers) later)
    (stopped : later.stopped = run.stopped) (mode : later.mode = run.mode)
    (jobs : later.jobs = run.jobs) (ended : ∀ place, EndedAt run place → EndedAt later place)
    (delivered : ∀ place ∈ run.delivered.map Prod.fst, place ∈ later.delivered.map Prod.fst) :
    Running sources setup workers job ids later :=
  running.update lawful (stopped.trans running.going) mode jobs ended delivered (.refl job)
    (fun _ isError => isError) (fun _ _ _ isError noError => absurd isError noError)
    (fun _ => .inl) running.apart running.pendingNodup

omit [ChatFormat] [ValidationGates] in
theorem EndedAt.emit {other : ℕ} (ended : EndedAt run other) (place : ℕ) (notice : ProgressEvent) :
    EndedAt { run with log := run.log ++ [(place, notice)] } other := by
  rcases ended with ⟨event, isEvent, fails⟩ | handed
  · refine .inl ⟨event, ?_, fails⟩
    rw [logAt_emit]
    split_ifs
    · exact List.mem_append_left _ isEvent
    · exact isEvent
  · exact .inr handed

/-- An event of the pipeline that reaches the callback of its source. -/
theorem Running.emit (working : Working sources job)
    (running : Running sources setup workers job ids run) (lawfulSources : LawfulSources sources)
    (lawfulSetup : LawfulSetup setup)
    {before after : List (Slot SourceJob ProgressEvent SourceResult)} {place : ℕ}
    {sourceJob : SourceJob} {notice : ProgressEvent} {rest : List ProgressEvent}
    {result : SourceResult}
    (found : run.slots = before ++ ⟨place, sourceJob, .running (notice :: rest) result⟩ :: after)
    (log : later.log = run.log ++ [(place, notice)])
    (lawful : Lawful (runPolicy setup.inner setup.answers workers) later)
    (stopped : later.stopped = run.stopped) (mode : later.mode = run.mode)
    (jobs : later.jobs = run.jobs) (delivered : later.delivered = run.delivered)
    (registered : Bool) :
    Working sources (if registered then job.progress sources stage notice else job) ∧
      Running sources setup workers (if registered then job.progress sources stage notice else job)
        ids later := by
  have isSlot : (⟨place, sourceJob, .running (notice :: rest) result⟩ :
      Slot SourceJob ProgressEvent SourceResult) ∈ run.slots := by simp [found]
  have logAt : ∀ other, later.logAt other = Run.logAt
      { run with log := run.log ++ [(place, notice)] } other := by
    intro other
    rw [Run.logAt, log]
    rfl
  have ended : ∀ other, EndedAt run other → EndedAt later other := by
    intro other isEnded
    rcases isEnded.emit place notice with ⟨event, isEvent, fails⟩ | handed
    · exact .inl ⟨event, (logAt other) ▸ isEvent, fails⟩
    · exact .inr (by rwa [delivered])
  have quiet : Working sources job ∧ Running sources setup workers job ids later :=
    ⟨working, running.quiet lawful stopped mode jobs ended (by simp [delivered])⟩
  cases registered with
  | false => exact quiet
  | true =>
      rw [if_pos rfl]
      rcases running.slot lawfulSetup isSlot with ⟨sid, source, isId, isSource, reports⟩
      rcases (running.lawful.slots _ isSlot).2 with ⟨choice, behaves⟩
      have known := reports choice _ _ behaves
      rcases known.names notice (by simp) with own | foreign
      swap
      · rw [progress_foreign (lawfulSources.sourceOf_foreign foreign)]
        exact quiet
      have isOwn : sourceOf sources notice.sourceId = some sid := by
        rw [own]
        exact lawfulSources.sourceOf isSource
      have notDelivered : place ∉ run.delivered.map Prod.fst := by
        intro handed
        rcases List.mem_map.mp handed with ⟨entry, isEntry, same⟩
        exact (running.lawful.place_ne found).2.2 entry isEntry same
      -- A source that has failed in this stage has nothing left to report but its end.
      have open_ : sid ∈ keys job.errors → notice.kind = .sourceCompleted := by
        intro isError
        rcases running.ended place sid isId isError with ⟨event, isEvent, fails⟩ | handed
        · exact (List.pairwise_append.mp known.failsLast).2.2 event isEvent notice
            List.mem_cons_self fails
        · exact absurd handed notDelivered
      rcases progress_spec stage working.core isOwn open_ id
        with ⟨called, pending, onlyFailure⟩
      have staged : ∀ other ∈ keys job.pending, other ≠ sid := by
        rintro other isPending rfl
        exact notDelivered (running.staged place other isId isPending).1
      refine ⟨working.calledBack called, running.update lawful (stopped.trans running.going) mode
        jobs ended (by simp [delivered]) called.frame called.errors ?_ ?_ ?_ ?_⟩
      · intro position other isOther isError noError
        rcases called.failed other isError with before | rfl
        · exact absurd before noError
        · rw [place_unique running.nodup isOther isId]
          refine .inl ⟨notice, ?_, onlyFailure isError noError⟩
          rw [logAt, logAt_emit, if_pos rfl]
          exact List.mem_append_right _ List.mem_cons_self
      · rw [pending]
        exact fun _ => .inl
      · rw [pending]
        intro other isPending isError
        rcases called.failed other isError with before | same
        · exact running.apart other isPending before
        · exact staged other isPending same
      · rw [pending]
        exact running.pendingNodup

/-- The callback takes the outcome of a source, which has neither failed nor come before. -/
theorem Running.deliver (workdir : PurePath) (stage : Stage) (disk : Option String)
    (working : Working sources job)
    (running : Running sources setup workers job ids run) (lawfulSources : LawfulSources sources)
    (lawfulSetup : LawfulSetup setup)
    {before after : List (Slot SourceJob ProgressEvent SourceResult)} {place : ℕ}
    {sourceJob : SourceJob} {value : BAValue}
    (found : run.slots = before ++ ⟨place, sourceJob, .done (.ok value)⟩ :: after)
    (alive : value.isFailed = false) :
    (job.outcome workdir sources stage value disk).2 = none ∧
      Working sources (job.outcome workdir sources stage value disk).1 ∧
      ∀ later : SourceRun,
        Lawful (runPolicy setup.inner setup.answers workers) later →
        later.stopped = run.stopped → later.mode = run.mode → later.jobs = run.jobs →
        later.log = run.log → later.delivered = run.delivered ++ [(place, .ok value)] →
          Running sources setup workers (job.outcome workdir sources stage value disk).1 ids
            later := by
  have isSlot : (⟨place, sourceJob, .done (.ok value)⟩ :
      Slot SourceJob ProgressEvent SourceResult) ∈ run.slots := by simp [found]
  rcases running.slot lawfulSetup isSlot with ⟨sid, source, isId, isSource, reports⟩
  rcases (running.lawful.slots _ isSlot).2 with ⟨choice, behaves⟩
  have known := reports choice _ _ behaves
  rcases known.result with ⟨same, isOk, own, quiet⟩
  cases isOk
  have isOwn : sourceOf sources value.sourceId = some sid := by
    rw [own]
    exact lawfulSources.sourceOf isSource
  have notDelivered : place ∉ run.delivered.map Prod.fst := by
    intro handed
    rcases List.mem_map.mp handed with ⟨entry, isEntry, same⟩
    exact (running.lawful.place_ne found).2.2 entry isEntry same
  have noError : sid ∉ keys job.errors := by
    intro isError
    rcases running.ended place sid isId isError with ⟨event, isEvent, fails⟩ | handed
    · exact quiet alive event isEvent fails
    · exact notDelivered handed
  have staged : ∀ other ∈ keys job.pending, other ≠ sid := by
    rintro other isPending rfl
    exact notDelivered (running.staged place other isId isPending).1
  rcases outcome_spec workdir stage disk working.core isOwn
    noError id with ⟨silent, called, pending⟩
  refine ⟨silent, working.calledBack called, ?_⟩
  intro later lawful stopped mode jobs log delivered
  have isLater : place ∈ later.delivered.map Prod.fst := by simp [delivered]
  refine running.update lawful (stopped.trans running.going) mode jobs ?_
    (by simp +contextual [delivered])
    called.frame called.errors ?_ ?_ ?_ ?_
  · rintro other (⟨event, isEvent, fails⟩ | handed)
    · refine .inl ⟨event, ?_, fails⟩
      rwa [Run.logAt, log]
    · refine .inr ?_
      rw [delivered, List.map_append]
      exact List.mem_append_left _ handed
  · intro position other isOther isError before
    rcases called.failed other isError with already | rfl
    · exact absurd already before
    · rw [place_unique running.nodup isOther isId]
      exact .inr isLater
  · intro other isPending
    rcases pending with same | ⟨⟨target, isNew⟩, _⟩
    · exact .inl (same ▸ isPending)
    · rw [isNew, mem_keys_dictSet] at isPending
      rcases isPending with rfl | earlier
      · exact .inr ⟨place, isId, isLater⟩
      · exact .inl earlier
  · intro other isPending isError
    rcases pending with same | ⟨⟨target, isNew⟩, sameErrors⟩
    · rw [same] at isPending
      rcases called.failed other isError with before | isSid
      · exact running.apart other isPending before
      · exact staged other isPending isSid
    · rw [isNew, mem_keys_dictSet] at isPending
      rw [sameErrors] at isError
      rcases isPending with rfl | earlier
      · exact noError isError
      · exact running.apart other earlier isError
  · rcases pending with same | ⟨⟨target, isNew⟩, _⟩
    · rw [same]
      exact running.pendingNodup
    · rw [isNew]
      exact nodup_keys_dictSet running.pendingNodup

omit [ValidationGates] in
/-- A callback does not change which event of the pipeline it belongs to. -/
theorem callback_emit (position : ℕ) :
    (callback surroundings sources stage job pool (.emit position)).2 = .emit position := by
  rw [callback]
  split
  · rfl
  · rfl

/-- The outcome at a place is handed over without an exception. -/
theorem Running.handOver (surroundings : Surroundings Choice) (stage : Stage)
    (working : Working sources job)
    (running : Running sources setup workers job ids run) (lawfulSources : LawfulSources sources)
    (lawfulSetup : LawfulSetup setup) (isRun : pool.runs = [run])
    {before after : List (Slot SourceJob ProgressEvent SourceResult)} {place : ℕ}
    {sourceJob : SourceJob} {result : SourceResult} (disk : Option String)
    (found : run.slots = before ++ ⟨place, sourceJob, .done result⟩ :: after) :
    consumeOutcome run.mode none result = none ∧
      (callback surroundings sources stage job pool (.deliver before.length disk)).2 =
        .deliver before.length none ∧
      Working sources
        (callback surroundings sources stage job pool (.deliver before.length disk)).1 ∧
      ∀ later : SourceRun,
        Lawful (runPolicy setup.inner setup.answers workers) later →
        later.stopped = run.stopped → later.mode = run.mode → later.jobs = run.jobs →
        later.log = run.log → later.delivered = run.delivered ++ [(place, result)] →
          Running sources setup workers
            (callback surroundings sources stage job pool (.deliver before.length disk)).1 ids
              later := by
  have isSlot : (⟨place, sourceJob, .done result⟩ :
      Slot SourceJob ProgressEvent SourceResult) ∈ run.slots := by simp [found]
  rcases running.slot lawfulSetup isSlot with ⟨sid, source, _, _, reports⟩
  rcases (running.lawful.slots _ isSlot).2 with ⟨choice, behaves⟩
  rcases (reports choice _ _ behaves).result with ⟨value, isOk, _⟩
  obtain rfl : result = .ok value := isOk
  cases alive : value.isFailed with
  | false =>
      have isOutcome : nextOutcome pool before.length = some value := by
        simp [nextOutcome, isRun, found, alive]
      rcases running.deliver surroundings.workdir stage disk working lawfulSources lawfulSetup
        found alive with ⟨silent, workingNext, runningNext⟩
      rw [callback, isOutcome]
      refine ⟨?_, congrArg (RunEvent.deliver before.length) silent, workingNext, runningNext⟩
      rw [running.mode]
      simp [consumeOutcome]
  | true =>
      have noOutcome : nextOutcome pool before.length = none := by
        simp [nextOutcome, isRun, found, alive]
      rw [callback, noOutcome]
      refine ⟨?_, rfl, working, ?_⟩
      · rw [running.mode]
        simp [consumeOutcome]
      · intro later lawful stopped mode jobs log delivered
        refine running.quiet lawful stopped mode jobs ?_ (by simp +contextual [delivered])
        rintro other (⟨event, isEvent, fails⟩ | handed)
        · refine .inl ⟨event, ?_, fails⟩
          rwa [Run.logAt, log]
        · refine .inr ?_
          rw [delivered, List.map_append]
          exact List.mem_append_left _ handed

omit [ValidationGates] in
theorem callback_deliver (surroundings : Surroundings Choice)
    (sources : List (String × PurePath)) (stage : Stage) (job : JobRun Choice) (pool : StagePool)
    (position : ℕ) (disk : Option String) :
    ∃ answer, (callback surroundings sources stage job pool (.deliver position disk)).2 =
      .deliver position answer := by
  rw [callback]
  split
  · exact ⟨_, rfl⟩
  · exact ⟨_, rfl⟩

/-- One event of the pipeline, with what its callback does. -/
theorem Running.step (working : Working sources job)
    (running : Running sources setup workers job ids run) (lawfulSources : LawfulSources sources)
    (lawfulSetup : LawfulSetup setup) (isRun : pool.runs = [run])
    (steps : (pipelineRuns setup.inner setup.answers workers).step pool
      (.run 0 (callback surroundings sources stage job pool event).2) = some moved) :
    ∃ later, moved.runs = [later] ∧
      Working sources (callback surroundings sources stage job pool event).1 ∧
      Running sources setup workers (callback surroundings sources stage job pool event).1 ids
        later := by
  rcases Pool.exists_single isRun steps with ⟨later, laterRuns, fires⟩
  refine ⟨later, laterRuns, ?_⟩
  have lawful := running.lawful.fires fires
  generalize pool.permits = permits at fires
  generalize moved.permits = free at fires
  cases event with
  | enter =>
      refine ⟨working, ?_⟩
      cases (fires : Fires _ _ run .enter _ later) with
      | enter first room =>
          exact running.quiet lawful rfl rfl rfl (fun _ ended => ended) fun _ handed => handed
  | acquire position choice =>
      refine ⟨working, ?_⟩
      cases (fires : Fires _ _ run (.acquire position choice) _ later) with
      | acquire choice found isFree =>
          exact running.quiet lawful rfl rfl rfl (fun _ ended => ended) fun _ handed => handed
  | complete position =>
      refine ⟨working, ?_⟩
      cases (fires : Fires _ _ run (.complete position) _ later) with
      | complete found =>
          exact running.quiet lawful rfl rfl rfl (fun _ ended => ended) fun _ handed => handed
  | emit position =>
      rw [callback_emit] at fires
      cases fires with
      | @emit before after place sourceJob notice rest result found =>
          have isNotice : nextNotice pool before.length = some notice := by
            simp [nextNotice, isRun, found]
          rw [callback, isNotice]
          exact running.emit working lawfulSources lawfulSetup found rfl lawful rfl rfl rfl rfl
            (isRegistered sources job.current notice.sourceId)
  | deliver position disk =>
      rcases callback_deliver surroundings sources stage job pool position disk
        with ⟨answer, isDeliver⟩
      rw [isDeliver] at fires
      cases fires with
      | @deliver before after place sourceJob result answer found inOrder accepted =>
          have known := running.handOver surroundings stage working lawfulSources
            lawfulSetup isRun disk found
          exact ⟨known.2.2.1, known.2.2.2 _ lawful rfl rfl rfl rfl rfl⟩
      | @stop before after place sourceJob result reason answer found inOrder refused =>
          have known := running.handOver surroundings stage working lawfulSources
            lawfulSetup isRun disk found
          rw [known.2.1] at isDeliver
          cases isDeliver
          have accepted : some reason = none := refused.symm.trans known.1
          cases accepted

end Running

section Phases

variable {Choice : Type} {sources : List (String × PurePath)} {setup : Setup Choice}
  {workers : ℕ} {job next : JobRun Choice} {ids rest : List String} {sid message : String}
  {step : DesktopStep}

/-- Between two stages no source that goes on has failed. -/
structure Between (sources : List (String × PurePath)) (job : JobRun Choice) : Prop where
  working : Working sources job
  clean : ∀ sid ∈ keys job.current, sid ∉ keys job.errors

/-- The loop after a pipeline, which has these sources before it. -/
structure Sweeping (sources : List (String × PurePath)) (job : JobRun Choice)
    (rest : List String) : Prop where
  working : Working sources job
  pending : keys job.pending ⊆ keys job.current
  pendingNodup : (keys job.pending).Nodup
  apart : ∀ sid ∈ keys job.pending, sid ∉ keys job.errors
  swept : job.state ≠ .cancelled → ∀ sid ∈ keys job.current, sid ∉ rest →
    sid ∈ keys job.pending ∨ sid ∈ keys job.errors

/-- The publication, which has these sources before it. -/
structure Publishing (sources : List (String × PurePath)) (job : JobRun Choice)
    (rest : List (String × PurePath)) : Prop where
  core : Core (fun sid => sid ∈ keys job.current ∧ sid ∉ keys rest ∧ sid ∉ keys job.errors) job
  nodup : (keys job.current).Nodup
  known : keys job.current ⊆ keys sources
  covered : ∀ sid ∈ keys sources, sid ∈ keys job.current ∨ sid ∈ keys job.errors
  isRest : rest <:+ job.current
  clean : ∀ sid ∈ keys rest, sid ∉ keys job.errors

/-- What a job says at its end. -/
structure Ended (sources : List (String × PurePath)) (job : JobRun Choice) : Prop where
  settled : Settled job.events
  ends : job.state ≠ .cancelled → ∀ sid ∈ keys sources, ∃ event ∈ job.events,
    event.sourceId = sid ∧ event.isTerminal
  state : job.state = .cancelled ∨
    job.state = .completed ∧ (∀ event ∈ job.events, event.kind ≠ .stageFailed) ∨
    job.state = .failed ∧ ∃ event ∈ job.events, event.kind = .stageFailed

theorem Core.of_iff {done finished : String → Prop} (core : Core done job)
    (same : ∀ sid, finished sid ↔ done sid) : Core finished job := by
  rcases core with ⟨settled, terminal, failed, completed⟩
  refine ⟨settled, ?_, failed, fun sid isDone => completed sid ((same sid).mp isDone)⟩
  intro event isEvent isTerminal
  exact (terminal event isEvent isTerminal).imp_right fun known =>
    ⟨known.1, (same _).mpr known.2⟩

/-- A cancellation changes the state alone, and nothing is promised after it. -/
theorem Working.cancel (working : Working sources job) :
    Working sources job.cancel :=
  ⟨working.core.congr rfl rfl, working.nodup, working.known, fun alive => absurd rfl alive⟩

/-- The exception of a stage ends all sources that were to go through it. -/
theorem Between.raise (between : Between sources job) (some_ : job.current ≠ []) :
    Ended sources (job.raise step message) := by
  unfold JobRun.raise
  dsimp only
  split_ifs with cancelled
  · exact ⟨between.working.core.settled, fun alive => absurd cancelled alive, .inl cancelled⟩
  · refine ⟨?_, ?_, .inr (.inr ⟨rfl, ?_⟩)⟩
    · refine List.pairwise_append.mpr ⟨between.working.core.settled, ?_, ?_⟩
      · rw [List.pairwise_map]
        have nodup := between.working.nodup
        rw [keys, List.nodup_iff_pairwise_ne, List.pairwise_map] at nodup
        exact nodup.imp fun differ _ same => differ same.symm
      · intro earlier isEarlier later isLater terminal
        rcases List.mem_map.mp isLater with ⟨entry, isEntry, rfl⟩
        exact (between.working.core.open_ (between.clean entry.1 (List.mem_map_of_mem isEntry))
          id earlier isEarlier terminal).symm
    · intro _ sid isSource
      rcases between.working.covered cancelled sid isSource with isCurrent | isError
      · rcases List.mem_map.mp isCurrent with ⟨entry, isEntry, rfl⟩
        exact ⟨stepEvent entry.1 .stageFailed step (some message),
          List.mem_append_right _ (List.mem_map_of_mem (f := fun entry =>
            stepEvent entry.1 .stageFailed step (some message)) isEntry), rfl, .inl rfl⟩
      · rcases between.working.core.failed sid isError with ⟨event, isEvent, own, fails⟩
        exact ⟨event, List.mem_append_left _ isEvent, own, .inl fails⟩
    · rcases List.exists_mem_of_ne_nil _ some_ with ⟨entry, isEntry⟩
      exact ⟨stepEvent entry.1 .stageFailed step (some message),
        List.mem_append_right _ (List.mem_map_of_mem (f := fun entry =>
          stepEvent entry.1 .stageFailed step (some message)) isEntry), rfl⟩

theorem Running.returned [ChatFormat] [ValidationGates] {run : SourceRun}
    {result : Except String (List BAValue)}
    (running : Running sources setup workers job ids run)
    (returns : Engine.returned run = some result) : result = .ok [] := by
  unfold Engine.returned at returns
  split_ifs at returns
  rw [running.going, running.mode] at returns
  exact (Option.some.inj returns).symm

theorem Running.sweeping [ChatFormat] [ValidationGates] {run : SourceRun}
    (working : Working sources job) (running : Running sources setup workers job ids run) :
    Sweeping sources (job.goTo (.sweeping (keys job.current))) (keys job.current) where
  working := ⟨working.core.congr rfl rfl, working.nodup, working.known, working.covered⟩
  pending _ isPending := running.known (running.pending isPending)
  pendingNodup := running.pendingNodup
  apart := running.apart
  swept _ _ isCurrent notLeft := absurd isCurrent notLeft

/-- One source of the loop after a pipeline. -/
theorem Sweeping.pass (sweeping : Sweeping sources job (sid :: rest))
    (settled : sid ∈ keys job.pending ∨ sid ∈ keys job.errors ∨ job.state = .cancelled) :
    Sweeping sources (job.goTo (.sweeping rest)) rest := by
  refine ⟨⟨sweeping.working.core.congr rfl rfl, sweeping.working.nodup, sweeping.working.known,
    sweeping.working.covered⟩, sweeping.pending, sweeping.pendingNodup, sweeping.apart, ?_⟩
  intro alive other isCurrent notLeft
  by_cases same : other = sid
  · subst same
    rcases settled with isPending | isError | cancelled
    · exact .inl isPending
    · exact .inr isError
    · exact absurd cancelled alive
  · exact sweeping.swept alive other isCurrent (by simp [same, notLeft])

theorem Sweeping.fail (sweeping : Sweeping sources job (sid :: rest))
    (notPending : sid ∉ keys job.pending) (noError : sid ∉ keys job.errors) :
    Sweeping sources ((job.goTo (.sweeping rest)).fail step sid message) rest := by
  have core : Core (fun _ => False) (job.goTo (.sweeping rest)) :=
    sweeping.working.core.congr rfl rfl
  refine ⟨⟨core.fail noError id step message, sweeping.working.nodup, sweeping.working.known, ?_⟩,
    sweeping.pending, sweeping.pendingNodup, ?_, ?_⟩
  · intro alive other isSource
    exact (sweeping.working.covered alive other isSource).imp_right fun isError =>
      mem_keys_dictSet.mpr (.inr isError)
  · intro other isPending isError
    rcases mem_keys_dictSet.mp isError with rfl | earlier
    · exact notPending isPending
    · exact sweeping.apart other isPending earlier
  · intro alive other isCurrent notLeft
    by_cases same : other = sid
    · exact .inr (mem_keys_dictSet.mpr (.inl same))
    · refine (sweeping.swept alive other isCurrent (by simp [same, notLeft])).imp_right ?_
      exact fun isError => mem_keys_dictSet.mpr (.inr isError)

/-- The outcomes of a stage are what goes on to the next. -/
theorem Sweeping.between (sweeping : Sweeping sources job []) (stages : List Stage) :
    Between sources (job.nextStage stages) where
  working :=
    { core := sweeping.working.core.congr rfl rfl
      nodup := sweeping.pendingNodup
      known := fun _ isPending => sweeping.working.known (sweeping.pending isPending)
      covered := fun alive other isSource => by
        rcases sweeping.working.covered alive other isSource with isCurrent | isError
        · exact sweeping.swept alive other isCurrent List.not_mem_nil
        · exact .inr isError }
  clean := sweeping.apart

theorem Between.publishing (between : Between sources job) (alive : job.state ≠ .cancelled) :
    Publishing sources (job.goTo (.publishing job.current)) job.current where
  core := (between.working.core.of_iff fun _ =>
    iff_of_false (fun both => both.2.1 both.1) id).congr rfl rfl
  nodup := between.working.nodup
  known := between.working.known
  covered := between.working.covered alive
  isRest := List.suffix_refl _
  clean := between.clean

theorem Publishing.ended (publishing : Publishing sources job []) : Ended sources job.finish := by
  refine ⟨publishing.core.settled, ?_, .inr ?_⟩
  · intro _ sid isSource
    by_cases isError : sid ∈ keys job.errors
    · rcases publishing.core.failed sid isError with ⟨event, isEvent, own, fails⟩
      exact ⟨event, isEvent, own, .inl fails⟩
    · have isCurrent := (publishing.covered sid isSource).resolve_right isError
      rcases publishing.core.completed sid ⟨isCurrent, List.not_mem_nil, isError⟩
        with ⟨event, isEvent, own, completes⟩
      exact ⟨event, isEvent, own, .inr completes⟩
  · cases errors : job.errors with
    | nil =>
        refine .inl ⟨by simp [JobRun.finish, errors], ?_⟩
        intro event isEvent fails
        rcases publishing.core.terminal event isEvent (.inl fails) with ⟨_, isError⟩ | ⟨ends, _⟩
        · rw [errors] at isError
          cases isError
        · rw [fails] at ends
          cases ends
    | cons entry errors' =>
        refine .inr ⟨by simp [JobRun.finish, errors], ?_⟩
        rcases publishing.core.failed entry.1 (by simp [errors]) with ⟨event, isEvent, _, fails⟩
        exact ⟨event, isEvent, fails⟩

/-- What does not change while a file is published. -/
structure SameBooks (job next : JobRun Choice) : Prop extends SameFrame job next where
  events : next.events = job.events
  errors : next.errors = job.errors
  phase : next.phase = job.phase

theorem SameBooks.refl (job : JobRun Choice) : SameBooks job job := ⟨.refl job, rfl, rfl, rfl⟩

theorem publishFile_same (job : JobRun Choice) (sid : String) (file target : PurePath)
    (disk : Option String) : SameBooks job (job.publishFile sid file target disk).1 := by
  unfold JobRun.publishFile
  split
  · exact .refl job
  · exact .refl job
  · exact ⟨⟨rfl, rfl, rfl, rfl⟩, rfl, rfl, rfl⟩

theorem publishFiles_same (job : JobRun Choice) (sid : String) (staged target : PurePath)
    (metricsDisk targetDisk : Option String) :
    SameBooks job (job.publishFiles sid staged target metricsDisk targetDisk).1 := by
  unfold JobRun.publishFiles
  split
  · exact publishFile_same ..
  · next file _ =>
      have first := publishFile_same job sid file (comparisonPath target) metricsDisk
      split
      · next next message isNext =>
          rw [isNext] at first
          exact first
      · next next isNext =>
          rw [isNext] at first
          have last := publishFile_same next sid staged target targetDisk
          exact ⟨first.toSameFrame.trans last.toSameFrame, last.events.trans first.events,
            last.errors.trans first.errors, last.phase.trans first.phase⟩

theorem publishSource_phase (job : JobRun Choice) (sid : String) (staged target : PurePath)
    (metricsDisk targetDisk : Option String) :
    (job.publishSource step sid staged target metricsDisk targetDisk).phase = job.phase := by
  have same := publishFiles_same job sid staged target metricsDisk targetDisk
  unfold JobRun.publishSource
  split
  · next published message isPublished =>
      rw [isPublished] at same
      exact same.phase
  · next published isPublished =>
      rw [isPublished] at same
      exact same.phase

/-- One source is published, or fails. -/
theorem Publishing.source {staged target : PurePath} {rest : List (String × PurePath)}
    {metricsDisk targetDisk : Option String}
    (publishing : Publishing sources job ((sid, staged) :: rest)) :
    Publishing sources ((job.goTo (.publishing rest)).publishSource step sid staged target
      metricsDisk targetDisk) rest := by
  have same := publishFiles_same (job.goTo (.publishing rest)) sid staged target metricsDisk
    targetDisk
  have restNodup : sid ∉ keys rest := by
    have nodup : (keys ((sid, staged) :: rest)).Nodup :=
      (publishing.isRest.sublist.map Prod.fst).nodup publishing.nodup
    rw [keys_cons, List.nodup_cons] at nodup
    exact nodup.1
  have isCurrent : sid ∈ keys job.current :=
    List.mem_map_of_mem (f := Prod.fst) (publishing.isRest.subset List.mem_cons_self)
  have isRest : rest <:+ job.current :=
    (List.suffix_cons (sid, staged) rest).trans publishing.isRest
  have noError : sid ∉ keys job.errors := publishing.clean sid List.mem_cons_self
  have notDone : ¬ (sid ∈ keys job.current ∧ sid ∉ keys ((sid, staged) :: rest) ∧
      sid ∉ keys job.errors) := fun done => done.2.1 List.mem_cons_self
  unfold JobRun.publishSource
  split
  · next published message isPublished =>
      rw [isPublished] at same
      rcases same with ⟨frame, events, errors, _⟩
      have errors : published.errors = job.errors := errors
      have core := (publishing.core.congr events errors).fail (by rwa [errors]) notDone
        step message
      have current : (published.fail step sid message).current = job.current := frame.current
      have errorsNext : ∀ other, other ∈ keys (published.fail step sid message).errors ↔
          other = sid ∨ other ∈ keys job.errors := by
        intro other
        rw [← errors]
        exact mem_keys_dictSet
      refine ⟨core.of_iff ?_, ?_, ?_, ?_, ?_, ?_⟩
      · intro other
        rw [current, errorsNext, keys_cons, List.mem_cons, not_or, not_or]
        tauto
      · rw [current]
        exact publishing.nodup
      · rw [current]
        exact publishing.known
      · intro other isSource
        rw [current, errorsNext]
        exact (publishing.covered other isSource).imp_right .inr
      · rw [current]
        exact isRest
      · intro other isOther isError
        rcases (errorsNext other).mp isError with rfl | before
        · exact restNodup isOther
        · exact publishing.clean other (List.mem_cons_of_mem _ isOther) before
  · next published isPublished =>
      rw [isPublished] at same
      rcases same with ⟨frame, events, errors, _⟩
      have errors : published.errors = job.errors := errors
      have core := (publishing.core.congr events errors).complete
        (stepEvent sid .sourceCompleted step none) (by rwa [errors]) notDone rfl
      have current : (published.report (stepEvent sid .sourceCompleted step none)).current =
          job.current := frame.current
      have errorsNext : (published.report (stepEvent sid .sourceCompleted step none)).errors =
          job.errors := errors
      refine ⟨core.of_iff ?_, ?_, ?_, ?_, ?_, ?_⟩
      · intro other
        have own : (stepEvent sid .sourceCompleted step none).sourceId = sid := rfl
        rw [current, errorsNext, own, keys_cons, List.mem_cons, not_or]
        by_cases same : other = sid
        · subst same
          simp [isCurrent, restNodup, noError]
        · simp [same]
      · rw [current]
        exact publishing.nodup
      · rw [current]
        exact publishing.known
      · rw [current, errorsNext]
        exact publishing.covered
      · rw [current]
        exact isRest
      · rw [errorsNext]
        exact fun other isOther => publishing.clean other (List.mem_cons_of_mem _ isOther)

end Phases

section Runs

variable {Choice : Type} [FileSystem] [ChatFormat] [ValidationGates]
  {surroundings : Surroundings Choice} {req : ValidRequest} {root : PurePath}
  {sources : List (String × PurePath)} {job next : JobRun Choice} {event : JobEvent Choice}

/-- What the surroundings of a job have to do. -/
structure LawfulJob (surroundings : Surroundings Choice) (req : ValidRequest)
    (sources : List (String × PurePath)) : Prop where
  paths : LawfulSources sources
  setups : ∀ index setup, surroundings.load index = .ok setup → LawfulSetup setup
  targets : ∀ sid ∈ keys sources, ∃ relative, outputRelative req.toDesktopRequest sid = .ok relative

/-- The books of a job in its phase. -/
def PhaseBooks (req : ValidRequest) (sources : List (String × PurePath)) (job : JobRun Choice) :
    JobPhase Choice → Prop
  | .head | .leaving => Between sources job
  | .running setup ids pool => LawfulSetup setup ∧ Working sources job ∧
      ∃ run, pool.runs = [run] ∧ Running sources setup req.workers job ids run
  | .sweeping rest => Sweeping sources job rest
  | .publishing rest => Publishing sources job rest
  | .ended => Ended sources job

omit [FileSystem] in
theorem PhaseBooks.cancel {phase : JobPhase Choice} (books : PhaseBooks req sources job phase)
    (going : phase ≠ .ended) :
    PhaseBooks req sources job.cancel phase := by
  cases phase with
  | head => exact ⟨books.working.cancel, books.clean⟩
  | leaving => exact ⟨books.working.cancel, books.clean⟩
  | running setup ids pool =>
      rcases books with ⟨lawful, working, run, isRun, running⟩
      exact ⟨lawful, working.cancel, run, isRun, { running with }⟩
  | sweeping rest =>
      exact ⟨books.working.cancel, books.pending, books.pendingNodup, books.apart,
        fun alive => absurd rfl alive⟩
  | publishing rest =>
      exact ⟨books.core.congr rfl rfl, books.nodup, books.known, books.covered, books.isRest,
        books.clean⟩
  | ended => exact absurd rfl going

theorem PhaseBooks.enterStage {stage : Stage} {stages : List Stage}
    (lawful : LawfulJob surroundings req sources) (between : Between sources job)
    (phase : job.phase = .head) (isStage : job.stages = stage :: stages)
    (steps : JobRun.step surroundings req root sources job .enterStage = some next) :
    PhaseBooks req sources next next.phase := by
  simp only [JobRun.step, phase, isStage] at steps
  split_ifs at steps with leaves
  · cases steps
    exact ⟨⟨between.working.core.congr rfl rfl, between.working.nodup, between.working.known,
      between.working.covered⟩, between.clean⟩
  · rw [not_or] at leaves
    cases loaded : surroundings.load job.index with
    | error message =>
        rw [loaded] at steps
        cases steps
        have phase : (job.raise stage.step message).phase = .ended := by
          unfold JobRun.raise
          split_ifs
          · rfl
          · rfl
        rw [phase]
        exact between.raise leaves.2
    | ok setup =>
        rw [loaded] at steps
        cases steps
        have lawfulSetup := lawful.setups _ setup loaded
        have known := prepared surroundings stage.step lawfulSetup
          (between.working.core.congr rfl rfl : Core (fun _ => False) job.clear)
          between.working.nodup between.working.known between.clean
        refine ⟨lawfulSetup, ⟨known.core.congr rfl rfl, ?_, ?_, ?_⟩, _, rfl, ?_⟩
        · rw [JobRun.goTo, known.frame.current]
          exact between.working.nodup
        · rw [JobRun.goTo, known.frame.current]
          exact between.working.known
        · rw [JobRun.goTo, known.frame.current, known.frame.state]
          intro alive sid isSource
          exact (between.working.covered alive sid isSource).imp_right (known.errors sid)
        · refine ⟨.start .., rfl, rfl, known.ids.nodup between.working.nodup, ?_, ?_, ?_, ?_, ?_,
            ?_, ?_, ?_⟩
          · rw [JobRun.goTo, known.frame.current]
            exact known.ids.subset
          · simp [Run.start, keys]
          · intro place sid isId
            rw [keys, List.getElem?_map, Option.map_eq_some_iff] at isId
            rcases isId with ⟨⟨_, input⟩, isInput, rfl⟩
            rcases known.named _ (List.mem_of_getElem? isInput) with ⟨source, isSource, named⟩
            exact ⟨source, input, isSource, by simp [Run.start, isInput], named⟩
          · rw [JobRun.goTo, known.frame.current]
            exact known.refused
          · intro place sid isId isError
            exact absurd isError (known.accepted sid (List.mem_of_getElem? isId))
          · rw [JobRun.goTo, known.pending]
            exact fun _ _ _ isPending => absurd isPending List.not_mem_nil
          · rw [JobRun.goTo, known.pending]
            exact List.nil_subset _
          · rw [JobRun.goTo, known.pending]
            exact List.nodup_nil

theorem PhaseBooks.engine {stage : Stage} {stages : List Stage} {setup : Setup Choice}
    {ids : List String} {pool : StagePool} {event : RunEvent Choice (Option String)}
    (lawful : LawfulJob surroundings req sources)
    (books : PhaseBooks req sources job (.running setup ids pool))
    (phase : job.phase = .running setup ids pool) (isStage : job.stages = stage :: stages)
    (steps : JobRun.step surroundings req root sources job (.engine event) = some next) :
    PhaseBooks req sources next next.phase := by
  simp only [JobRun.step, phase, isStage] at steps
  rcases Option.map_eq_some_iff.mp steps with ⟨moved, moves, rfl⟩
  rcases books with ⟨lawfulSetup, working, run, isRun, running⟩
  rcases running.step working lawful.paths lawfulSetup isRun moves
    with ⟨later, isLater, workingNext, runningNext⟩
  exact ⟨lawfulSetup, ⟨workingNext.core.congr rfl rfl, workingNext.nodup, workingNext.known,
    workingNext.covered⟩, later, isLater, { runningNext with }⟩

theorem PhaseBooks.sweep {rest : List String} {stage : Stage} {stages : List Stage}
    (sweeping : Sweeping sources job rest) (phase : job.phase = .sweeping rest)
    (isStage : job.stages = stage :: stages)
    (steps : JobRun.step surroundings req root sources job .sweep = some next) :
    PhaseBooks req sources next next.phase := by
  cases rest with
  | nil =>
      simp only [JobRun.step, phase, isStage] at steps
      cases steps
      exact sweeping.between stages
  | cons sid rest =>
      simp only [JobRun.step, phase, isStage] at steps
      split_ifs at steps with lost
      · cases steps
        exact sweeping.fail lost.1 lost.2.1
      · cases steps
        apply sweeping.pass
        tauto

theorem PhaseBooks.publish {rest : List (String × PurePath)}
    {metricsDisk targetDisk : Option String}
    (lawful : LawfulJob surroundings req sources) (publishing : Publishing sources job rest)
    (phase : job.phase = .publishing rest)
    (steps : JobRun.step surroundings req root sources job (.publish metricsDisk targetDisk) =
      some next) : PhaseBooks req sources next next.phase := by
  cases rest with
  | nil =>
      simp only [JobRun.step, phase] at steps
      cases steps
      exact publishing.ended
  | cons entry rest =>
      rcases entry with ⟨sid, staged⟩
      have isCurrent : sid ∈ keys job.current :=
        List.mem_map_of_mem (f := Prod.fst) (publishing.isRest.subset List.mem_cons_self)
      rcases lawful.targets sid (publishing.known isCurrent) with ⟨relative, isRelative⟩
      cases isStep : lastStep req with
      | none => simp [JobRun.step, phase, isStep] at steps
      | some step =>
          simp only [JobRun.step, phase, isStep, isRelative] at steps
          cases steps
          rw [publishSource_phase]
          exact publishing.source

/-- The books are kept at every step. -/
theorem phaseBooks (lawful : LawfulJob surroundings req sources) :
    (jobSystem surroundings req root sources).Invariant
      fun job => PhaseBooks req sources job job.phase where
  initial job isInitial := by
    cases isInitial
    refine ⟨⟨⟨List.Pairwise.nil, nofun, nofun, nofun⟩, lawful.paths.ids, List.Subset.refl _, ?_⟩,
      nofun⟩
    exact fun _ _ isSource => .inl isSource
  step job event next books steps := by
    have steps : JobRun.step surroundings req root sources job event = some next := steps
    cases event with
    | cancel =>
        cases phase : job.phase with
        | ended => simp [JobRun.step, phase] at steps
        | _ =>
            simp only [JobRun.step, phase] at steps
            cases steps
            have cancelled := books.cancel (by simp [phase])
            exact cancelled
    | enterStage =>
        cases phase : job.phase with
        | head =>
            rw [phase] at books
            cases isStage : job.stages with
            | nil =>
                simp only [JobRun.step, phase, isStage] at steps
                cases steps
                exact ⟨⟨books.working.core.congr rfl rfl, books.working.nodup,
                  books.working.known, books.working.covered⟩, books.clean⟩
            | cons stage stages =>
                exact PhaseBooks.enterStage lawful books phase isStage steps
        | _ => simp [JobRun.step, phase] at steps
    | engine event =>
        cases phase : job.phase with
        | running setup ids pool =>
            rw [phase] at books
            cases isStage : job.stages with
            | nil => simp [JobRun.step, phase, isStage] at steps
            | cons stage stages => exact PhaseBooks.engine lawful books phase isStage steps
        | _ => simp [JobRun.step, phase] at steps
    | returned =>
        cases phase : job.phase with
        | running setup ids pool =>
            rw [phase] at books
            rcases books with ⟨_, working, run, isRun, running⟩
            cases isStage : job.stages with
            | nil => simp [JobRun.step, phase, isStage] at steps
            | cons stage stages =>
                simp only [JobRun.step, phase, isStage, isRun, List.head?_cons, Option.bind_some]
                  at steps
                cases returns : Engine.returned run with
                | none => simp [returns] at steps
                | some result =>
                    obtain rfl := running.returned returns
                    simp only [returns] at steps
                    cases steps
                    exact running.sweeping working
        | _ => simp [JobRun.step, phase] at steps
    | sweep =>
        cases phase : job.phase with
        | sweeping rest =>
            rw [phase] at books
            cases isStage : job.stages with
            | nil => cases rest <;> simp [JobRun.step, phase, isStage] at steps
            | cons stage stages => exact PhaseBooks.sweep books phase isStage steps
        | _ => simp [JobRun.step, phase] at steps
    | leave =>
        cases phase : job.phase with
        | leaving =>
            rw [phase] at books
            simp only [JobRun.step, phase] at steps
            split_ifs at steps with cancelled
            · cases steps
              exact ⟨books.working.core.settled, fun alive => absurd cancelled alive,
                .inl cancelled⟩
            · cases steps
              exact books.publishing cancelled
        | _ => simp [JobRun.step, phase] at steps
    | publish metricsDisk targetDisk =>
        cases phase : job.phase with
        | publishing rest =>
            rw [phase] at books
            exact PhaseBooks.publish lawful books phase steps
        | _ => simp [JobRun.step, phase] at steps

omit [FileSystem] in
theorem settled_of_phaseBooks {phase : JobPhase Choice} (books : PhaseBooks req sources job phase) :
    Settled job.events := by
  cases phase with
  | head => exact books.working.core.settled
  | leaving => exact books.working.core.settled
  | running setup ids pool => exact books.2.1.core.settled
  | sweeping rest => exact books.working.core.settled
  | publishing rest => exact books.core.settled
  | ended => exact books.settled

end Runs

end Batchalign.Desktop
