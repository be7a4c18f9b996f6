import Batchalign.Desktop.Made

/-!
# What is published

A source that is reported complete has its outcome published: what all stages of the request make
of its own file, one after the other. Neither the order in which the pipelines finish their
sources nor what becomes of the others makes a difference.
-/

namespace Batchalign.Desktop

open Batchalign.Compare Batchalign.Cli Batchalign.Engine Batchalign.Morphosyntax DispatchWindow
  Transition

section Definitions

variable {Choice : Type} [FileSystem] [ChatFormat] [ValidationGates]
  (surroundings : Surroundings Choice) (req : ValidRequest) (root : PurePath)
  (sources : List (String × PurePath))

/-- Each of these files is what the first stages make of its source. -/
def Flow (index : ℕ) (job : JobRun Choice) (entries : List (String × PurePath)) : Prop :=
  ∀ entry ∈ entries, ∃ source, (entry.1, source) ∈ sources ∧
    Made surroundings req.stages entry.1 source index entry.2 (job.read surroundings entry.2)

/-- Between two stages. -/
structure Moving (job : JobRun Choice) : Prop where
  stages : job.stages = req.stages.drop job.index
  inside : job.index ≤ req.stages.length
  flow : Flow surroundings req sources job.index job job.current
  left : ∀ path ∈ keys job.staged, ∃ index < job.index, Below surroundings.workdir index path

/-- A stage whose outcomes are coming in. -/
structure Filling (job : JobRun Choice) : Prop where
  stages : job.stages = req.stages.drop job.index
  flow : Flow surroundings req sources (job.index + 1) job job.pending
  here : ∀ entry ∈ job.pending, stagedPath surroundings.workdir job.index entry.1 = .ok entry.2
  left : ∀ path ∈ keys job.staged, (∃ index < job.index, Below surroundings.workdir index path) ∨
    Below surroundings.workdir job.index path ∧
      (lastChar path = some 'a' → ∃ sid, (sid, path) ∈ job.pending)

/-- The inputs of a stage are read from the files of the last one. -/
def Fed (setup : Setup Choice) (index : ℕ) (ids : List String) (jobs : List SourceJob) : Prop :=
  ∀ (place : ℕ) sid, ids[place]? = some sid → ∃ source path content stage spec read,
    (sid, source) ∈ sources ∧ Made surroundings req.stages sid source index path content ∧
      req.stages[index]? = some stage ∧ makeInput stage.step source path sid = .ok spec ∧
      Reads surroundings path content read ∧
      jobs[place]? = some (.object ⟨some (absoluteId source),
        setup.convert (spec.data read) (absoluteId source)⟩)

/-- The outcome of a source lies at its target and is listed. -/
def Published (job : JobRun Choice) (sid : String) : Prop :=
  ∃ source relative staged content, (sid, source) ∈ sources ∧
    outputRelative req.toDesktopRequest sid = .ok relative ∧
    Made surroundings req.stages sid source req.stages.length staged (some content) ∧
    job.published.lookup ((outputRoot req.toDesktopRequest root).join relative) = some content ∧
    ⟨sid, (outputRoot req.toDesktopRequest root).join relative⟩ ∈ job.artifacts

def AllPublished (job : JobRun Choice) : Prop :=
  ∀ event ∈ job.events, event.kind = .sourceCompleted →
    Published surroundings req root sources job event.sourceId

/-- The files of a job in its phase. -/
def PhaseMade (job : JobRun Choice) : JobPhase Choice → Prop
  | .head => Moving surroundings req sources job
  | .running setup ids pool => surroundings.load job.index = .ok setup ∧
      Filling surroundings req sources job ∧
        ∃ run, pool.runs = [run] ∧ Fed surroundings req sources setup job.index ids run.jobs
  | .sweeping _ => Filling surroundings req sources job
  | .leaving => Moving surroundings req sources job ∧
      (job.state = .cancelled ∨ job.current = [] ∨ job.stages = [])
  | .publishing rest => Flow surroundings req sources req.stages.length job rest ∧
      AllPublished surroundings req root sources job
  | .ended => AllPublished surroundings req root sources job

end Definitions

section Callbacks

variable {Choice : Type} [ChatFormat] {surroundings : Surroundings Choice}
  {sources : List (String × PurePath)} {stage : Stage} {job next : JobRun Choice}
  {pool : StagePool} {event : RunEvent Choice (Option String)}

/-- What a stage and its files are about stays as it is. -/
structure SameFiles (job next : JobRun Choice) : Prop where
  stages : next.stages = job.stages
  index : next.index = job.index
  current : next.current = job.current
  pending : next.pending = job.pending
  staged : next.staged = job.staged

omit [ChatFormat] in
theorem SameFiles.refl (job : JobRun Choice) : SameFiles job job := ⟨rfl, rfl, rfl, rfl, rfl⟩

omit [ChatFormat] in
theorem progress_files (sources : List (String × PurePath)) (stage : Stage) (job : JobRun Choice)
    (event : ProgressEvent) : SameFiles job (job.progress sources stage event) := by
  unfold JobRun.progress
  split
  · exact .refl job
  · dsimp only
    split_ifs
    · exact .refl job
    · exact ⟨rfl, rfl, rfl, rfl, rfl⟩
    · exact ⟨rfl, rfl, rfl, rfl, rfl⟩

/-- A callback leaves the files alone, unless it stages an outcome. -/
theorem callback_files (surroundings : Surroundings Choice) (sources : List (String × PurePath))
    (stage : Stage) (job : JobRun Choice) (pool : StagePool)
    (event : RunEvent Choice (Option String)) :
    SameFiles job (callback surroundings sources stage job pool event).1 ∨
    ∃ position value sid disk target files, nextOutcome pool position = some value ∧
      sourceOf sources value.sourceId = some sid ∧
      stageOutcome surroundings.workdir job.index stage sid value disk = .ok (target, files) ∧
      (callback surroundings sources stage job pool event).1 = job.keep stage sid target files := by
  unfold callback
  split
  · split
    · dsimp only
      split_ifs
      · exact .inl (progress_files ..)
      · exact .inl (.refl job)
    · exact .inl (.refl job)
  · next position disk =>
      split
      · next value isOutcome =>
          dsimp only
          unfold JobRun.outcome
          split
          · exact .inl (.refl job)
          · next sid found =>
              split_ifs
              · exact .inl (.refl job)
              · split
                · exact .inl ⟨rfl, rfl, rfl, rfl, rfl⟩
                · next target files isStaged =>
                    exact .inr ⟨position, value, sid, disk, target, files, isOutcome, found,
                      isStaged, rfl⟩
      · exact .inl (.refl job)
  · exact .inl (.refl job)

theorem callback_index (surroundings : Surroundings Choice) (sources : List (String × PurePath))
    (stage : Stage) (job : JobRun Choice) (pool : StagePool)
    (event : RunEvent Choice (Option String)) :
    (callback surroundings sources stage job pool event).1.index = job.index := by
  rcases callback_files surroundings sources stage job pool event with
    same | ⟨_, _, sid, _, target, files, _, _, _, same⟩
  · exact same.index
  · rw [same]
    rfl

theorem stageOutcome_ok {workdir target : PurePath} {index : ℕ} {sid : String} {value : BAValue}
    {disk : Option String} {files : List (PurePath × Content)}
    (isStaged : stageOutcome workdir index stage sid value disk = .ok (target, files)) :
    value.isFailed = false ∧ stagedPath workdir index sid = .ok target ∧
      writeOutcome value target (stage.finalStage && stage.step.stripWordTiming) = .ok files := by
  unfold stageOutcome at isStaged
  split_ifs at isStaged with failed
  · split at isStaged
    · cases isStaged
    · cases isStaged
  · rw [Bool.not_eq_true] at failed
    split at isStaged
    · cases isStaged
    · cases isStaged
    · next target' isTarget =>
        cases writes : writeOutcome value target'
            (stage.finalStage && stage.step.stripWordTiming) with
        | error message =>
            rw [writes] at isStaged
            cases isStaged
        | ok written =>
            rw [writes] at isStaged
            cases isStaged
            exact ⟨failed, isTarget, writes⟩

end Callbacks

section Preparing

variable {Choice : Type} [FileSystem] {surroundings : Surroundings Choice}
  {sources rest : List (String × PurePath)} {step : DesktopStep} {setup : Setup Choice}
  {job : JobRun Choice}

/-- The inputs of a stage are made of the files of their sources. -/
theorem prepare_inputs (surroundings : Surroundings Choice)
    (sources rest : List (String × PurePath)) (step : DesktopStep) (setup : Setup Choice)
    (job : JobRun Choice) :
    SameFiles job (prepare surroundings sources step setup job rest).1 ∧
      ∀ entry ∈ (prepare surroundings sources step setup job rest).2, ∃ path spec,
        (entry.1, path) ∈ rest ∧
        makeInput step ((sources.lookup entry.1).getD path) path entry.1 = .ok spec ∧
        entry.2 = ⟨some (absoluteId ((sources.lookup entry.1).getD path)),
          setup.convert (spec.data (job.read surroundings))
            (absoluteId ((sources.lookup entry.1).getD path))⟩ := by
  induction rest generalizing job with
  | nil => exact ⟨.refl job, nofun⟩
  | cons first rest ih =>
      rcases first with ⟨sid, path⟩
      rw [prepare]
      dsimp only
      cases made : makeInput step ((sources.lookup sid).getD path) path sid with
      | error message =>
          have later := ih ((job.report (stepEvent sid .stageStarted step none)).fail step sid
            message)
          rcases later with ⟨⟨stages, index, current, pending, staged⟩, inputs⟩
          refine ⟨⟨stages, index, current, pending, staged⟩, ?_⟩
          intro entry isEntry
          rcases inputs entry isEntry with ⟨path, spec, isRest, known⟩
          exact ⟨path, spec, List.mem_cons_of_mem _ isRest, known⟩
      | ok spec =>
          have later := ih (job.report (stepEvent sid .stageStarted step none))
          rcases later with ⟨⟨stages, index, current, pending, staged⟩, inputs⟩
          refine ⟨⟨stages, index, current, pending, staged⟩, ?_⟩
          intro entry isEntry
          rcases List.mem_cons.mp isEntry with rfl | isLater
          · exact ⟨path, spec, List.mem_cons_self, made, rfl⟩
          · rcases inputs entry isLater with ⟨path, spec, isRest, known⟩
            exact ⟨path, spec, List.mem_cons_of_mem _ isRest, known⟩

end Preparing

section Stages

variable {Choice : Type} [FileSystem] [ChatFormat] [ValidationGates]
  {surroundings : Surroundings Choice} {req : ValidRequest} {root : PurePath}
  {sources : List (String × PurePath)} {job next : JobRun Choice} {stage : Stage} {sid : String}
  {source target : PurePath} {files : List (PurePath × Content)} {setup : Setup Choice}
  {ids : List String} {run : SourceRun}

/-- What the sources of an accepted request have to do with one another. -/
structure ApartSources (req : ValidRequest) (root : PurePath) (sources : List (String × PurePath)) :
    Prop extends Apart req.toDesktopRequest root where
  known : keys sources ⊆ req.sourceIds
  relative : ∀ sid ∈ req.sourceIds, (PurePath.ofString sid).absolute = false
  targets : ∀ one ∈ req.sourceIds, ∀ other ∈ req.sourceIds, ∀ own others,
    outputRelative req.toDesktopRequest one = .ok own →
      outputRelative req.toDesktopRequest other = .ok others →
      (outputRoot req.toDesktopRequest root).join own =
        (outputRoot req.toDesktopRequest root).join others → one = other

theorem Flow.known {index : ℕ} {entries : List (String × PurePath)} {entry : String × PurePath}
    (flow : Flow surroundings req sources index job entries) (isEntry : entry ∈ entries) :
    entry.1 ∈ keys sources := by
  rcases flow entry isEntry with ⟨source, isSource, _⟩
  exact List.mem_map.mpr ⟨_, isSource, rfl⟩

/-- The outcome of a source is staged, and nothing else is lost. -/
theorem Filling.keep (apart : ApartSources req root sources)
    (filling : Filling surroundings req sources job) (isNew : sid ∉ keys job.pending)
    (isSource : (sid, source) ∈ sources)
    (made : Made surroundings req.stages sid source (job.index + 1) target
      ((contentOf files target).or (surroundings.disk target)))
    (isTarget : stagedPath surroundings.workdir job.index sid = .ok target)
    (beside : ∀ other ∈ keys files, Beside target other) :
    Filling surroundings req sources (job.keep stage sid target files) := by
  have isId : sid ∈ req.sourceIds := apart.known (List.mem_map_of_mem (f := Prod.fst) isSource)
  have relative := apart.relative sid isId
  rcases below_stagedPath relative isTarget with ⟨below, isCha⟩
  have pending : (job.keep stage sid target files).pending = job.pending ++ [(sid, target)] :=
    dictSet_of_notMem isNew
  have reads (path : PurePath) : (job.keep stage sid target files).read surroundings path =
      ((contentOf files path).or (job.staged.lookup path)).or (surroundings.disk path) := by
    rw [← lookup_putFiles]
    rfl
  -- Nothing was staged at this path before.
  have isFresh : job.staged.lookup target = none := by
    rw [lookup_eq_none_iff_notMem]
    intro there
    rcases filling.left target there with ⟨index, earlier, isBelow⟩ | ⟨_, owner⟩
    · exact earlier.ne (isBelow.unique below)
    · rcases owner isCha with ⟨other, isOther⟩
      have otherId := apart.known (filling.flow.known isOther)
      have same := apart.stagedPath_inj otherId isId (apart.relative other otherId) relative
        (filling.here _ isOther) isTarget
      exact isNew (same ▸ List.mem_map_of_mem (f := Prod.fst) isOther)
  refine ⟨filling.stages, ?_, ?_, ?_⟩
  · intro entry isEntry
    rw [pending, List.mem_append, List.mem_singleton] at isEntry
    rcases isEntry with earlier | rfl
    · rcases filling.flow entry earlier with ⟨other, isOther, madeOther⟩
      refine ⟨other, isOther, ?_⟩
      have otherId := apart.known (filling.flow.known earlier)
      have otherRelative := apart.relative _ otherId
      have absent : entry.2 ∉ keys files := by
        intro isFile
        rcases beside _ isFile with same | ⟨last, _, notCha⟩
        · have isOwn := filling.here entry earlier
          rw [same] at isOwn
          have sameId := apart.stagedPath_inj otherId isId otherRelative relative isOwn isTarget
          exact isNew (sameId ▸ List.mem_map_of_mem (f := Prod.fst) earlier)
        · exact notCha (below_stagedPath otherRelative (filling.here entry earlier)).2
      have same : (job.keep stage sid target files).read surroundings entry.2 =
          job.read surroundings entry.2 := by
        rw [reads, contentOf_eq_none absent, Option.none_or]
        rfl
      rw [same]
      exact madeOther
    · refine ⟨source, isSource, ?_⟩
      rw [reads, isFresh, Option.or_none]
      exact made
  · intro entry isEntry
    rw [pending, List.mem_append, List.mem_singleton] at isEntry
    rcases isEntry with earlier | rfl
    · exact filling.here entry earlier
    · exact isTarget
  · intro path isKey
    rw [pending]
    rcases keys_putFiles isKey with isFile | there
    · right
      rcases beside path isFile with rfl | ⟨last, rfl, notCha⟩
      · exact ⟨below, fun _ => ⟨sid, by simp⟩⟩
      · exact ⟨below.beside last, fun isA => absurd isA notCha⟩
    · rcases filling.left path there with earlier | ⟨isBelow, owner⟩
      · exact .inl earlier
      · refine .inr ⟨isBelow, fun isA => ?_⟩
        rcases owner isA with ⟨other, isOther⟩
        exact ⟨other, List.mem_append_left _ isOther⟩

/-- The rest of the job does not matter. -/
theorem Filling.congr (filling : Filling surroundings req sources job)
    (same : SameFiles job next) : Filling surroundings req sources next := by
  rcases filling with ⟨isStages, flow, here, left⟩
  rcases same with ⟨stages, index, _, pending, staged⟩
  have reads : next.read surroundings = job.read surroundings := by
    funext path
    rw [JobRun.read, JobRun.read, staged]
  refine ⟨by rw [stages, index, isStages], ?_, ?_, ?_⟩
  · intro entry isEntry
    rw [pending] at isEntry
    rw [index, reads]
    exact flow entry isEntry
  · rw [pending, index]
    exact here
  · rw [staged, index, pending]
    exact left

theorem Moving.congr (moving : Moving surroundings req sources job)
    (same : SameFiles job next) : Moving surroundings req sources next := by
  rcases moving with ⟨isStages, inside, flow, left⟩
  rcases same with ⟨stages, index, current, _, staged⟩
  have reads : next.read surroundings = job.read surroundings := by
    funext path
    rw [JobRun.read, JobRun.read, staged]
  refine ⟨by rw [stages, index, isStages], index ▸ inside, ?_, ?_⟩
  · intro entry isEntry
    rw [current] at isEntry
    rw [index, reads]
    exact flow entry isEntry
  · rw [staged, index]
    exact left

omit [FileSystem] in
/-- The outcome of an input that did not fail is that of all stages of its pipeline. -/
theorem runJob_converted {inner : PipelineInner} {runners : Task → Option Runner} {id : String}
    {converted : Except String ConvertedInput} {notices : List ProgressEvent} {value : BAValue}
    (behaves : runJob inner runners (.object ⟨some id, converted⟩) = (notices, .ok value))
    (alive : value.isFailed = false) :
    ∃ input, converted = .ok input ∧
      (runOne { inner with runners := runners } input.toValue).1 = value := by
  cases converted with
  | ok input =>
      cases behaves
      exact ⟨input, rfl, rfl⟩
  | error message =>
      have left := runOne_failed { inner with runners := runners } id (.parse message)
      have isValue : (runOne { inner with runners := runners }
          (.failed id (.parse message) none)).1 = value :=
        Except.ok.inj (congrArg Prod.snd behaves)
      rw [left.1] at isValue
      rw [← isValue] at alive
      cases alive

omit [ChatFormat] [ValidationGates] [FileSystem] in
theorem nextOutcome_slot {pool : StagePool} {position : ℕ} {value : BAValue}
    (isRun : pool.runs = [run]) (isOutcome : nextOutcome pool position = some value) :
    ∃ slot ∈ run.slots, slot.phase = .done (.ok value) ∧ value.isFailed = false := by
  rw [nextOutcome, isRun, List.head?_cons, Option.bind_some] at isOutcome
  rcases Option.bind_eq_some_iff.mp isOutcome with ⟨slot, isSlot, isDone⟩
  refine ⟨slot, List.mem_of_getElem? isSlot, ?_⟩
  split at isDone
  · next other phase =>
      split_ifs at isDone with failed
      cases isDone
      exact ⟨phase, Bool.eq_false_iff.mpr failed⟩
  · cases isDone

/-- One event of the pipeline, with what its callback stages. -/
theorem Filling.engine {pool : StagePool} {stages : List Stage}
    (event : RunEvent Choice (Option String)) (apart : ApartSources req root sources)
    (lawful : LawfulSources sources) (lawfulSetup : LawfulSetup setup)
    (isStage : job.stages = stage :: stages) (loaded : surroundings.load job.index = .ok setup)
    (running : Running sources setup req.workers job ids run) (isRun : pool.runs = [run])
    (fed : Fed surroundings req sources setup job.index ids run.jobs)
    (filling : Filling surroundings req sources job) :
    Filling surroundings req sources (callback surroundings sources stage job pool event).1 := by
  rcases callback_files surroundings sources stage job pool event with
    same | ⟨position, value, sid, disk, target, files, isOutcome, found, isStaged, same⟩
  · exact filling.congr same
  · rw [same]
    rcases nextOutcome_slot isRun isOutcome with ⟨⟨place, sourceJob, phase⟩, isSlot, isDone, alive⟩
    obtain rfl : phase = .done (.ok value) := isDone
    rcases running.slot lawfulSetup isSlot with ⟨owner, _, isId, isSource, reports⟩
    rcases running.lawful.slots _ isSlot with ⟨isJob, choice, behaves⟩
    rcases (reports choice _ _ behaves).result with ⟨value', isOk, own, _⟩
    cases isOk
    obtain rfl : sid = owner := by
      rw [own, lawful.sourceOf isSource] at found
      exact (Option.some.inj found).symm
    rcases fed place sid isId with ⟨source, path, content, stage', spec, read, isOwn, made,
      isStage', isInput, reads, isFed⟩
    obtain rfl : SourceJob.object _ = sourceJob := Option.some.inj (isFed.symm.trans isJob)
    rcases runJob_converted behaves alive with ⟨input, converts, runs⟩
    have atIndex : req.stages[job.index]? = some stage := by
      rw [← List.head?_drop, ← filling.stages, isStage, List.head?_cons]
    obtain rfl : stage' = stage := Option.some.inj (isStage'.symm.trans atIndex)
    rcases stageOutcome_ok isStaged with ⟨_, isTarget, writes⟩
    have isNew : sid ∉ keys job.pending := by
      intro isPending
      rcases List.append_of_mem isSlot with ⟨before, after, whole⟩
      have handed := (running.staged place sid isId isPending).1
      rcases List.mem_map.mp handed with ⟨entry, isEntry, samePlace⟩
      exact (running.lawful.place_ne whole).2.2 entry isEntry samePlace
    refine filling.keep apart isNew isOwn ?_ isTarget (beside_writeOutcome writes)
    exact .stage choice made atIndex loaded isInput reads converts runs alive isTarget writes

omit [FileSystem] [ChatFormat] [ValidationGates] in
/-- Nothing has completed before the publication. -/
theorem Core.not_completed (core : Core (fun _ => False) job) :
    ∀ event ∈ job.events, event.kind ≠ .sourceCompleted := by
  intro event isEvent completed
  rcases core.terminal event isEvent (.inr completed) with ⟨failed, _⟩ | ⟨_, never⟩
  · rw [completed] at failed
    cases failed
  · exact never

theorem allPublished_raise (core : Core (fun _ => False) job) (step : DesktopStep)
    (message : String) :
    AllPublished surroundings req root sources (job.raise step message) := by
  intro event isEvent completed
  have earlier := core.not_completed
  unfold JobRun.raise at isEvent
  dsimp only at isEvent
  split_ifs at isEvent
  · exact absurd completed (earlier event isEvent)
  · rcases List.mem_append.mp isEvent with before | isLast
    · exact absurd completed (earlier event before)
    · rcases List.mem_map.mp isLast with ⟨entry, _, rfl⟩
      cases completed

/-- The pipeline of a stage is started on what the last stage has left. -/
theorem Moving.enterStage {stages : List Stage} (lawful : LawfulSources sources)
    (moving : Moving surroundings req sources job) (isStage : job.stages = stage :: stages)
    (setup : Setup Choice) :
    Filling surroundings req sources
        (prepare surroundings sources stage.step setup job.clear job.current).1 ∧
      Fed surroundings req sources setup job.index
        (keys (prepare surroundings sources stage.step setup job.clear job.current).2)
        ((prepare surroundings sources stage.step setup job.clear job.current).2.map
          fun entry => SourceJob.object entry.2) := by
  rcases prepare_inputs surroundings sources job.current stage.step setup job.clear
    with ⟨same, inputs⟩
  have atIndex : req.stages[job.index]? = some stage := by
    rw [← List.head?_drop, ← moving.stages, isStage, List.head?_cons]
  refine ⟨⟨?_, ?_, ?_, ?_⟩, ?_⟩
  · rw [same.stages, same.index]
    exact moving.stages
  · rw [Flow, same.pending]
    nofun
  · rw [same.pending]
    nofun
  · rw [same.staged, same.index]
    exact fun path there => .inl (moving.left path there)
  · intro place sid isId
    rw [keys, List.getElem?_map, Option.map_eq_some_iff] at isId
    rcases isId with ⟨⟨_, input⟩, isInput, rfl⟩
    rcases inputs _ (List.mem_of_getElem? isInput) with ⟨path, spec, isCurrent, made, isRead⟩
    rcases moving.flow _ isCurrent with ⟨source, isSource, madeOf⟩
    rw [lookup_of_mem lawful.ids isSource, Option.getD_some] at made isRead
    refine ⟨source, path, _, stage, spec, job.read surroundings, isSource, madeOf, atIndex, made,
      ⟨rfl, ?_⟩, ?_⟩
    · intro other outside
      have absent : job.staged.lookup other = none := by
        rw [lookup_eq_none_iff_notMem]
        intro there
        rcases moving.left other there with ⟨index, _, below⟩
        rw [below.relative] at outside
        cases outside
      rw [JobRun.read, absent, Option.none_or]
    · rw [List.getElem?_map, isInput, Option.map_some]
      exact congrArg (fun input => some (SourceJob.object input)) isRead

/-- The outcomes of a stage are the files of the next one. -/
theorem Filling.nextStage {stages : List Stage} (filling : Filling surroundings req sources job)
    (isStage : job.stages = stage :: stages) :
    Moving surroundings req sources (job.nextStage stages) := by
  have inside : job.index < req.stages.length := by
    by_contra outside
    have empty := filling.stages
    rw [isStage, List.drop_eq_nil_iff.mpr (not_lt.mp outside)] at empty
    cases empty
  refine ⟨?_, inside, filling.flow, ?_⟩
  · show stages = req.stages.drop (job.index + 1)
    rw [← List.tail_drop, ← filling.stages, isStage, List.tail_cons]
  · intro path there
    rcases filling.left path there with ⟨index, earlier, below⟩ | ⟨below, _⟩
    · exact ⟨index, Nat.lt_succ_of_lt earlier, below⟩
    · exact ⟨job.index, Nat.lt_succ_self _, below⟩

end Stages

section Publishing

variable {Choice : Type} {job next : JobRun Choice} {sid : String} {file staged target : PurePath}
  {disk metricsDisk targetDisk : Option String}

/-- What a publication does to the files and the list of artifacts. -/
structure Publishes (job next : JobRun Choice) (targets : List PurePath) : Prop where
  staged : next.staged = job.staged
  others : ∀ other ∉ targets, next.published.lookup other = job.published.lookup other
  artifacts : job.artifacts ⊆ next.artifacts

theorem Publishes.refl (job : JobRun Choice) (targets : List PurePath) :
    Publishes job job targets :=
  ⟨rfl, fun _ _ => rfl, List.Subset.refl _⟩

theorem publishFile_spec (job : JobRun Choice) (sid : String) (file target : PurePath)
    (disk : Option String) :
    Publishes job (job.publishFile sid file target disk).1 [target] ∧
      ((job.publishFile sid file target disk).2 = none → ∃ content,
        job.staged.lookup file = some content ∧
        (job.publishFile sid file target disk).1.published.lookup target = some content ∧
        ⟨sid, target⟩ ∈ (job.publishFile sid file target disk).1.artifacts) := by
  unfold JobRun.publishFile
  split
  · exact ⟨.refl job _, nofun⟩
  · exact ⟨.refl job _, nofun⟩
  · next content found =>
      refine ⟨⟨rfl, ?_, ?_⟩, fun _ => ⟨content, found, ?_, ?_⟩⟩
      · intro other isOther
        show (dictSet target content job.published).lookup other = _
        rw [lookup_dictSet, if_neg (by simpa using isOther)]
      · exact List.subset_append_left _ _
      · show (dictSet target content job.published).lookup target = _
        rw [lookup_dictSet, if_pos rfl]
      · exact List.mem_append_right _ List.mem_cons_self

/-- The outcome of a source is published with its table, and no other file is touched. -/
theorem publishFiles_spec (job : JobRun Choice) (sid : String) (staged target : PurePath)
    (metricsDisk targetDisk : Option String) :
    Publishes job (job.publishFiles sid staged target metricsDisk targetDisk).1
        [comparisonPath target, target] ∧
      ((job.publishFiles sid staged target metricsDisk targetDisk).2 = none → ∃ content,
        job.staged.lookup staged = some content ∧
        (job.publishFiles sid staged target metricsDisk targetDisk).1.published.lookup target =
          some content ∧
        ⟨sid, target⟩ ∈
          (job.publishFiles sid staged target metricsDisk targetDisk).1.artifacts) := by
  have widen {job next : JobRun Choice} {targets wider : List PurePath}
      (publishes : Publishes job next targets) (inside : targets ⊆ wider) :
      Publishes job next wider :=
    ⟨publishes.staged, fun other isOther => publishes.others other fun there =>
      isOther (inside there), publishes.artifacts⟩
  unfold JobRun.publishFiles
  split
  · have known := publishFile_spec job sid staged target targetDisk
    exact ⟨widen known.1 (by simp), known.2⟩
  · next file _ =>
      have first := publishFile_spec job sid file (comparisonPath target) metricsDisk
      split
      · next next message isNext =>
          rw [isNext] at first
          exact ⟨widen first.1 (by simp), nofun⟩
      · next next isNext =>
          rw [isNext] at first
          have last := publishFile_spec next sid staged target targetDisk
          refine ⟨⟨last.1.staged.trans first.1.staged, ?_, ?_⟩, ?_⟩
          · intro other isOther
            rw [List.mem_cons, not_or] at isOther
            rw [last.1.others other isOther.2,
              first.1.others other (by simpa using isOther.1)]
          · exact List.Subset.trans first.1.artifacts last.1.artifacts
          · rw [← first.1.staged]
            exact last.2

end Publishing

section Runs

variable {Choice : Type} [FileSystem] [ChatFormat] [ValidationGates]
  {surroundings : Surroundings Choice} {req : ValidRequest} {root : PurePath}
  {sources rest : List (String × PurePath)} {job next : JobRun Choice} {sid : String}
  {staged relative : PurePath} {step : DesktopStep} {metricsDisk targetDisk : Option String}

/-- A source that was published stays so while another one is. -/
theorem Published.kept {other : String}
    (published : Published surroundings req root sources job other)
    (apart : ApartSources req root sources) (isId : sid ∈ req.sourceIds) (differ : other ≠ sid)
    (isRelative : outputRelative req.toDesktopRequest sid = .ok relative)
    (publishes : Publishes job next
      [comparisonPath ((outputRoot req.toDesktopRequest root).join relative),
        (outputRoot req.toDesktopRequest root).join relative]) :
    Published surroundings req root sources next other := by
  rcases published with ⟨source, own, staged, content, isSource, isOwn, made, found, listed⟩
  have otherId := apart.known (List.mem_map.mpr ⟨_, isSource, rfl⟩)
  refine ⟨source, own, staged, content, isSource, isOwn, made, ?_, publishes.artifacts listed⟩
  rw [publishes.others _ ?_]
  · exact found
  · intro there
    simp only [List.mem_cons, List.not_mem_nil, or_false] at there
    rcases there with isTable | isTarget
    · exact apart.tables other otherId sid isId differ own relative isOwn isRelative isTable
    · exact differ (apart.targets other otherId sid isId own relative isOwn isRelative isTarget)

/-- One source is published, or fails. -/
theorem AllPublished.source (apart : ApartSources req root sources)
    (all : AllPublished surroundings req root sources job)
    (flow : Flow surroundings req sources req.stages.length job ((sid, staged) :: rest))
    (open_ : ∀ event ∈ job.events, event.isTerminal → event.sourceId ≠ sid)
    (isRelative : outputRelative req.toDesktopRequest sid = .ok relative) :
    Flow surroundings req sources req.stages.length
        ((job.goTo (.publishing rest)).publishSource step sid staged
          ((outputRoot req.toDesktopRequest root).join relative) metricsDisk targetDisk) rest ∧
      AllPublished surroundings req root sources
        ((job.goTo (.publishing rest)).publishSource step sid staged
          ((outputRoot req.toDesktopRequest root).join relative) metricsDisk targetDisk) := by
  have isId : sid ∈ req.sourceIds := apart.known (flow.known List.mem_cons_self)
  have same := publishFiles_same (job.goTo (.publishing rest)) sid staged
    ((outputRoot req.toDesktopRequest root).join relative) metricsDisk targetDisk
  have known := publishFiles_spec (job.goTo (.publishing rest)) sid staged
    ((outputRoot req.toDesktopRequest root).join relative) metricsDisk targetDisk
  have flows {later : JobRun Choice} (isStaged : later.staged = job.staged) :
      Flow surroundings req sources req.stages.length later rest := by
    intro entry isEntry
    have reads : later.read surroundings = job.read surroundings := by
      funext path
      rw [JobRun.read, JobRun.read, isStaged]
    rw [reads]
    exact flow entry (List.mem_cons_of_mem _ isEntry)
  have keeps {later : JobRun Choice} (publishes : Publishes (job.goTo (.publishing rest)) later
      [comparisonPath ((outputRoot req.toDesktopRequest root).join relative),
        (outputRoot req.toDesktopRequest root).join relative]) :
      ∀ event ∈ job.events, event.kind = .sourceCompleted →
        Published surroundings req root sources later event.sourceId := by
    intro event isEvent completed
    have publishes : Publishes job later _ := ⟨publishes.staged, publishes.others,
      publishes.artifacts⟩
    exact (all event isEvent completed).kept apart isId (open_ event isEvent (.inr completed))
      isRelative publishes
  unfold JobRun.publishSource
  split
  · next published message isPublished =>
      rw [isPublished] at same known
      refine ⟨flows known.1.staged, ?_⟩
      intro event isEvent completed
      rcases List.mem_append.mp isEvent with before | isLast
      · rw [same.events] at before
        exact keeps known.1 event before completed
      · rw [List.mem_singleton.mp isLast] at completed
        cases completed
  · next published isPublished =>
      rw [isPublished] at same known
      refine ⟨flows known.1.staged, ?_⟩
      intro event isEvent completed
      rcases List.mem_append.mp isEvent with before | isLast
      · rw [same.events] at before
        exact keeps known.1 event before completed
      · rw [List.mem_singleton.mp isLast]
        rcases flow _ List.mem_cons_self with ⟨source, isSource, made⟩
        rcases known.2 rfl with ⟨content, found, isTarget, listed⟩
        have reads : job.read surroundings staged = some content := by
          have found : job.staged.lookup staged = some content := found
          rw [JobRun.read, found, Option.some_or]
        rw [reads] at made
        exact ⟨source, relative, staged, content, isSource, isRelative, made, isTarget, listed⟩

theorem PhaseMade.publish {rest : List (String × PurePath)} (apart : ApartSources req root sources)
    (lawful : LawfulJob surroundings req sources) (publishing : Publishing sources job rest)
    (flow : Flow surroundings req sources req.stages.length job rest)
    (all : AllPublished surroundings req root sources job) (phase : job.phase = .publishing rest)
    (steps : JobRun.step surroundings req root sources job (.publish metricsDisk targetDisk) =
      some next) : PhaseMade surroundings req root sources next next.phase := by
  cases rest with
  | nil =>
      simp only [JobRun.step, phase] at steps
      cases steps
      exact all
  | cons entry rest =>
      rcases entry with ⟨sid, staged⟩
      rcases lawful.targets sid (flow.known List.mem_cons_self) with ⟨relative, isRelative⟩
      cases isStep : lastStep req with
      | none => simp [JobRun.step, phase, isStep] at steps
      | some step =>
          simp only [JobRun.step, phase, isStep, isRelative] at steps
          cases steps
          rw [publishSource_phase]
          have noError : sid ∉ keys job.errors := publishing.clean sid List.mem_cons_self
          have open_ := publishing.core.open_ noError
            (fun done => done.2.1 List.mem_cons_self)
          exact all.source apart flow open_ isRelative

theorem PhaseMade.cancel {phase : JobPhase Choice}
    (made : PhaseMade surroundings req root sources job phase) :
    PhaseMade surroundings req root sources job.cancel phase := by
  cases phase with
  | head => exact Moving.congr made ⟨rfl, rfl, rfl, rfl, rfl⟩
  | running setup ids pool => exact ⟨made.1, made.2.1.congr ⟨rfl, rfl, rfl, rfl, rfl⟩, made.2.2⟩
  | sweeping rest => exact Filling.congr made ⟨rfl, rfl, rfl, rfl, rfl⟩
  | leaving => exact ⟨made.1.congr ⟨rfl, rfl, rfl, rfl, rfl⟩, .inl rfl⟩
  | publishing rest => exact made
  | ended => exact made

theorem PhaseMade.enterStage (lawful : LawfulSources sources) (between : Between sources job)
    (moving : Moving surroundings req sources job) (phase : job.phase = .head)
    (steps : JobRun.step surroundings req root sources job .enterStage = some next) :
    PhaseMade surroundings req root sources next next.phase := by
  cases isStage : job.stages with
  | nil =>
      simp only [JobRun.step, phase, isStage] at steps
      cases steps
      exact ⟨moving.congr ⟨rfl, rfl, rfl, rfl, rfl⟩, .inr (.inr isStage)⟩
  | cons stage stages =>
      simp only [JobRun.step, phase, isStage] at steps
      split_ifs at steps with leaves
      · cases steps
        exact ⟨moving.congr ⟨rfl, rfl, rfl, rfl, rfl⟩, leaves.imp_right .inl⟩
      · cases loaded : surroundings.load job.index with
        | error message =>
            rw [loaded] at steps
            cases steps
            have ended : (job.raise stage.step message).phase = .ended := by
              unfold JobRun.raise
              split_ifs
              · rfl
              · rfl
            rw [ended]
            exact allPublished_raise between.working.core stage.step message
        | ok setup =>
            rw [loaded] at steps
            cases steps
            have entered := moving.enterStage lawful isStage setup
            have same := (prepare_inputs surroundings sources job.current stage.step setup
              job.clear).1
            refine ⟨?_, entered.1.congr ⟨rfl, rfl, rfl, rfl, rfl⟩, _, rfl, ?_⟩
            · rw [JobRun.goTo, same.index]
              exact loaded
            · rw [JobRun.goTo, same.index]
              exact entered.2

theorem PhaseMade.engine {setup : Setup Choice} {ids : List String} {pool : StagePool}
    {event : RunEvent Choice (Option String)} {stage : Stage} {stages : List Stage}
    (apart : ApartSources req root sources) (lawful : LawfulSources sources)
    (books : PhaseBooks req sources job (.running setup ids pool))
    (made : PhaseMade surroundings req root sources job (.running setup ids pool))
    (phase : job.phase = .running setup ids pool) (isStage : job.stages = stage :: stages)
    (steps : JobRun.step surroundings req root sources job (.engine event) = some next) :
    PhaseMade surroundings req root sources next next.phase := by
  rcases books with ⟨lawfulSetup, working, run, isRun, running⟩
  rcases made with ⟨loaded, filling, run', isRun', fed⟩
  obtain rfl : run = run' := List.singleton_inj.mp (isRun.symm.trans isRun')
  simp only [JobRun.step, phase, isStage] at steps
  rcases Option.map_eq_some_iff.mp steps with ⟨moved, moves, rfl⟩
  rcases Pool.exists_single isRun moves with ⟨later, laterRuns, fires⟩
  have sameJobs : later.jobs = run.jobs := congrArg Prod.snd fires.call
  refine ⟨?_, ?_, later, laterRuns, ?_⟩
  · rw [JobRun.goTo, callback_index]
    exact loaded
  · have filled := filling.engine event apart lawful lawfulSetup isStage loaded running isRun fed
    exact filled.congr ⟨rfl, rfl, rfl, rfl, rfl⟩
  · rw [JobRun.goTo, callback_index, sameJobs]
    exact fed

theorem PhaseMade.leave (between : Between sources job)
    (made : PhaseMade surroundings req root sources job .leaving) (phase : job.phase = .leaving)
    (steps : JobRun.step surroundings req root sources job .leave = some next) :
    PhaseMade surroundings req root sources next next.phase := by
  rcases made with ⟨moving, why⟩
  have completed : AllPublished surroundings req root sources job := fun event isEvent isEnd =>
    absurd isEnd (between.working.core.not_completed event isEvent)
  simp only [JobRun.step, phase] at steps
  split_ifs at steps with cancelled
  · cases steps
    exact completed
  · cases steps
    refine ⟨?_, completed⟩
    rcases why with isCancelled | empty | noStage
    · exact absurd isCancelled cancelled
    · rw [empty]
      exact fun _ isEntry => absurd isEntry List.not_mem_nil
    · have all : job.index = req.stages.length := by
        have outside := moving.stages
        rw [noStage] at outside
        exact le_antisymm moving.inside (List.drop_eq_nil_iff.mp outside.symm)
      rw [← all]
      exact moving.flow

/-- The files are what the stages make of them at every step. -/
theorem phaseMade (apart : ApartSources req root sources)
    (lawful : LawfulJob surroundings req sources) :
    (jobSystem surroundings req root sources).Invariant fun job =>
      PhaseBooks req sources job job.phase ∧
        PhaseMade surroundings req root sources job job.phase where
  initial job isInitial := by
    refine ⟨(phaseBooks lawful).initial job isInitial, ?_⟩
    cases isInitial
    refine ⟨rfl, Nat.zero_le _, ?_, nofun⟩
    intro entry isEntry
    exact ⟨entry.2, isEntry, .source⟩
  step job event next both steps := by
    refine ⟨(phaseBooks lawful).step job event next both.1 steps, ?_⟩
    rcases both with ⟨books, made⟩
    have steps : JobRun.step surroundings req root sources job event = some next := steps
    cases event with
    | cancel =>
        cases phase : job.phase with
        | ended => simp [JobRun.step, phase] at steps
        | _ =>
            simp only [JobRun.step, phase] at steps
            cases steps
            exact made.cancel
    | enterStage =>
        cases phase : job.phase with
        | head =>
            rw [phase] at books made
            exact PhaseMade.enterStage lawful.paths books made phase steps
        | _ => simp [JobRun.step, phase] at steps
    | engine event =>
        cases phase : job.phase with
        | running setup ids pool =>
            rw [phase] at books made
            cases isStage : job.stages with
            | nil => simp [JobRun.step, phase, isStage] at steps
            | cons stage stages =>
                exact PhaseMade.engine apart lawful.paths books made phase isStage steps
        | _ => simp [JobRun.step, phase] at steps
    | returned =>
        cases phase : job.phase with
        | running setup ids pool =>
            rw [phase] at books made
            rcases books with ⟨_, working, run, isRun, running⟩
            cases isStage : job.stages with
            | nil => simp [JobRun.step, phase, isStage] at steps
            | cons stage stages =>
                simp only [JobRun.step, phase, isStage, isRun, List.head?_cons, Option.bind_some]
                  at steps
                cases returns : Engine.returned run with
                | none => simp [returns] at steps
                | some result =>
                    obtain rfl := running.returned returns
                    simp only [returns] at steps
                    cases steps
                    exact made.2.1.congr ⟨rfl, rfl, rfl, rfl, rfl⟩
        | _ => simp [JobRun.step, phase] at steps
    | sweep =>
        cases phase : job.phase with
        | sweeping rest =>
            rw [phase] at made
            cases isStage : job.stages with
            | nil => cases rest <;> simp [JobRun.step, phase, isStage] at steps
            | cons stage stages =>
                cases rest with
                | nil =>
                    simp only [JobRun.step, phase, isStage] at steps
                    cases steps
                    exact Filling.nextStage made isStage
                | cons sid rest =>
                    simp only [JobRun.step, phase, isStage] at steps
                    split_ifs at steps with lost
                    · cases steps
                      exact Filling.congr made ⟨rfl, rfl, rfl, rfl, rfl⟩
                    · cases steps
                      exact Filling.congr made ⟨rfl, rfl, rfl, rfl, rfl⟩
        | _ => simp [JobRun.step, phase] at steps
    | leave =>
        cases phase : job.phase with
        | leaving =>
            rw [phase] at books made
            exact PhaseMade.leave books made phase steps
        | _ => simp [JobRun.step, phase] at steps
    | publish metricsDisk targetDisk =>
        cases phase : job.phase with
        | publishing rest =>
            rw [phase] at books made
            exact PhaseMade.publish apart lawful books made.1 made.2 phase steps
        | _ => simp [JobRun.step, phase] at steps

/-- In every phase. Before the publication no source is complete. -/
theorem PhaseMade.all {phase : JobPhase Choice}
    (made : PhaseMade surroundings req root sources job phase)
    (books : PhaseBooks req sources job phase) :
    AllPublished surroundings req root sources job := by
  have early (core : Core (fun _ => False) job) :
      AllPublished surroundings req root sources job := fun event isEvent completed =>
    absurd completed (core.not_completed event isEvent)
  cases phase with
  | head => exact early books.working.core
  | running setup ids pool => exact early books.2.1.core
  | sweeping rest => exact early books.working.core
  | leaving => exact early books.working.core
  | publishing rest => exact made.2
  | ended => exact made

end Runs

section Accepted

variable {Choice : Type} [FileSystem] [PythonText] [ChatFormat] [ValidationGates]
  {surroundings : Surroundings Choice} {req : ValidRequest} {root : PurePath}
  {taken : List (String × PurePath)} {job : JobRun Choice}

omit [ChatFormat] [ValidationGates] in
/-- The sources of an accepted request have targets of their own. -/
theorem apartSources_of_accepted (accepted : sources req.toDesktopRequest = .ok (root, taken))
    (apart : Apart req.toDesktopRequest root) : ApartSources req root taken := by
  rcases sources_ok_iff.mp accepted with ⟨_, fits, _, targetsNew, rfl⟩
  refine ⟨apart, ?_, fun sid isId => (fits sid isId).plain.1, ?_⟩
  · intro sid isKey
    simpa [keys] using isKey
  · intro one isOne other isOther own others isOwn isOthers same
    have sameTarget : targetPath req.toDesktopRequest (outputRoot req.toDesktopRequest root) one =
        targetPath req.toDesktopRequest (outputRoot req.toDesktopRequest root) other := by
      rw [targetPath, targetPath, isOwn, isOthers]
      exact congrArg FileSystem.resolve same
    exact List.inj_on_of_nodup_map targetsNew isOne isOther sameTarget

/-- Whatever its threads, pipelines and disk do: a source that a job reports complete has at its
target, listed among the artifacts, what all stages make of its own file. -/
theorem published_outcomes (lawful : LawfulPaths)
    (accepted : sources req.toDesktopRequest = .ok (root, taken))
    (apart : Apart req.toDesktopRequest root)
    (setups : ∀ index setup, surroundings.load index = .ok setup → LawfulSetup setup)
    (reachable : (jobSystem surroundings req root taken).Reachable job) :
    ∀ event ∈ job.events, event.kind = .sourceCompleted →
      Published surroundings req root taken job event.sourceId := by
  have lawfulJob := lawfulJob_of_accepted lawful accepted setups
  have both := (phaseMade (apartSources_of_accepted accepted apart) lawfulJob).reachable reachable
  exact both.2.all both.1

end Accepted

section Samples

/-- The tagged transcript is in the output folder. -/
theorem tagging_published :
    ∃ job, (jobSystem quietDesk tagging ⟨true, ["in"]⟩ taggingSources).run
        (.start tagging taggingSources) taggingEvents = some job ∧
      Published quietDesk tagging ⟨true, ["in"]⟩ taggingSources job "a.cha" := by
  have accepted : sources tagging.toDesktopRequest = .ok (⟨true, ["in"]⟩, taggingSources) := by
    decide +kernel
  have apart : Apart tagging.toDesktopRequest ⟨true, ["in"]⟩ := by
    constructor
    · intro one isOne other isOther _ _ _
      rw [List.mem_singleton.mp isOne, List.mem_singleton.mp isOther]
    · intro one isOne other isOther differ
      rw [List.mem_singleton.mp isOne, List.mem_singleton.mp isOther] at differ
      exact absurd rfl differ
  have ends : ((jobSystem quietDesk tagging ⟨true, ["in"]⟩ taggingSources).run
      (.start tagging taggingSources) taggingEvents).map
        (fun job => (job.events.find? fun event => event.kind = .sourceCompleted).map
          WireEvent.sourceId) = some (some "a.cha") := by
    decide +kernel
  rcases Option.map_eq_some_iff.mp ends with ⟨job, runs, found⟩
  rcases Option.map_eq_some_iff.mp found with ⟨event, isEvent, isSource⟩
  have completed : event.kind = .sourceCompleted := by simpa using List.find?_some isEvent
  have published := published_outcomes lawful_desk accepted apart handingOn_lawful
    ⟨_, taggingEvents, rfl, runs⟩ event (List.mem_of_find?_eq_some isEvent) completed
  rw [isSource] at published
  exact ⟨job, runs, published⟩

end Samples

end Batchalign.Desktop
