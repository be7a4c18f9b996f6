import Batchalign.Gui.Submission

/-!
# A tidy store

What holds of everything the app can show: a tab for each batch and one that is in front, a row for
each file of a batch, with a stage for each step of its pipeline and a log of bounded length.
-/

namespace Batchalign.Gui

open Batchalign.Desktop Batchalign.Morphosyntax

section Definitions

/-- A row of a batch with this pipeline, under this id. -/
structure FileRow.Tidy (pipeline : List Verb) (id : String) (file : FileRow) : Prop where
  own : file.sourceId = id
  mirrors : file.stages.map StageRow.verb = pipeline
  percents : ∀ stage ∈ file.stages, stage.pct ≤ 100
  short : file.log.length ≤ 200

structure Batch.Tidy (batch : Batch) : Prop where
  order : keys batch.files = batch.fileOrder
  once : batch.fileOrder.Nodup
  rows : ∀ id file, batch.files.lookup id = some file → file.Tidy batch.pipeline id

structure AppState.Tidy (state : AppState) : Prop where
  once : (keys state.batches).Nodup
  tabsOnce : state.tabOrder.Nodup
  tabs : ∀ id, id ∈ state.tabOrder ↔ id ∈ keys state.batches
  front : ∀ id, state.activeBatchId = some id → id ∈ state.tabOrder
  shown : state.activeBatchId = none → state.tabOrder = []
  batches : ∀ id batch, state.batches.lookup id = some batch → batch.id = id ∧ batch.Tidy

/-- Rows that a batch with this pipeline can be given. -/
def RowsFit (pipeline : List Verb) (files : List FileRow) : Prop :=
  (files.map FileRow.sourceId).Nodup ∧ ∀ file ∈ files, file.Tidy pipeline file.sourceId

/-- What an action brings with it is tidy. -/
def Action.Fits (state : AppState) : Action → Prop
  | .batchOpened batch => batch.Tidy
  | .batchStarted batchId _ files => ∀ batch, state.batches.lookup batchId = some batch →
      RowsFit batch.pipeline files
  | .filesRediscovered _ _ _ files =>
      (files.map FileRow.sourceId).Nodup ∧ ∀ file ∈ files, file.log.length ≤ 200
  | _ => True

end Definitions

section Rows

variable {files : List FileRow} {file : FileRow} {pipeline : List Verb} {id : String}
  {stages : List StageRow} {event : ProgressEvent} {now : ℕ} {error : Option String}

theorem byId_eq (once : (files.map FileRow.sourceId).Nodup) :
    byId files = files.map fun file => (file.sourceId, file) := by
  induction files using List.reverseRecOn with
  | nil => rfl
  | append_singleton files file ih =>
      rw [List.map_append, List.nodup_append] at once
      have absent : file.sourceId ∉ keys (files.map fun file => (file.sourceId, file)) := by
        intro there
        refine once.2.2 file.sourceId ?_ file.sourceId (by simp) rfl
        simpa [keys, Function.comp_def] using there
      rw [byId, List.foldl_concat, ← byId, ih once.1, dictSet_of_notMem absent]
      simp

theorem keys_byId (once : (files.map FileRow.sourceId).Nodup) :
    keys (byId files) = files.map FileRow.sourceId := by
  simp [byId_eq once, keys, Function.comp_def]

theorem mem_of_lookup_byId (once : (files.map FileRow.sourceId).Nodup)
    (found : (byId files).lookup id = some file) : file ∈ files ∧ file.sourceId = id := by
  rw [byId_eq once] at found
  rcases List.mem_map.mp (mem_of_lookup found) with ⟨other, isOther, same⟩
  cases same
  exact ⟨isOther, rfl⟩

@[simp] theorem makeStages_verbs (pipeline : List Verb) :
    (makeStages pipeline).map StageRow.verb = pipeline := by
  simp [makeStages, Function.comp_def]

theorem makeStages_percents (pipeline : List Verb) :
    ∀ stage ∈ makeStages pipeline, stage.pct ≤ 100 := by
  simp [makeStages]

theorem length_lastEntries (log : List LogEntry) : (lastEntries log).length ≤ 200 := by
  simp only [lastEntries, List.length_drop]
  omega

theorem map_verb_modify {change : StageRow → StageRow} {index : ℕ}
    (keeps : ∀ stage, (change stage).verb = stage.verb) :
    (stages.modify index change).map StageRow.verb = stages.map StageRow.verb := by
  apply List.ext_getElem?
  intro place
  by_cases here : index = place
  · subst here
    simp [Function.comp_def, keeps]
  · simp [here]

theorem forall_modify {change : StageRow → StageRow} {index : ℕ} {holds : StageRow → Prop}
    (keeps : ∀ stage, holds stage → holds (change stage)) (before : ∀ stage ∈ stages, holds stage) :
    ∀ stage ∈ stages.modify index change, holds stage := by
  intro stage isStage
  rcases List.mem_iff_getElem?.mp isStage with ⟨place, found⟩
  by_cases here : index = place
  · subst here
    rw [List.getElem?_modify_eq] at found
    rcases Option.map_eq_some_iff.mp found with ⟨other, isOther, rfl⟩
    exact keeps other (before other (List.mem_of_getElem? isOther))
  · simp only [ne_eq, here, not_false_eq_true, List.getElem?_modify_ne] at found
    exact before stage (List.mem_of_getElem? found)

variable [Browser]

/-- No event adds a stage to a row or takes one away. -/
theorem moveStages_verbs (event : ProgressEvent) (stageIdx : Option ℕ) (stages : List StageRow) :
    (moveStages event stageIdx stages).map StageRow.verb = stages.map StageRow.verb := by
  unfold moveStages
  split
  · apply List.ext_getElem?
    intro place
    simp only [List.getElem?_map, List.getElem?_mapIdx, Option.map_map]
    congr 1
    funext stage
    simp only [Function.comp_apply]
    split_ifs <;> rfl
  · exact map_verb_modify fun _ => rfl
  · exact map_verb_modify fun _ => rfl
  · exact map_verb_modify fun _ => rfl
  · simp only [List.map_map]
    congr 1
    funext stage
    simp only [Function.comp_apply]
    split_ifs <;> rfl
  · rfl

theorem moveStages_percents {stageIdx : Option ℕ} (before : ∀ stage ∈ stages, stage.pct ≤ 100) :
    ∀ stage ∈ moveStages event stageIdx stages, stage.pct ≤ 100 := by
  unfold moveStages
  split
  · intro stage isStage
    rcases List.mem_mapIdx.mp isStage with ⟨place, inside, rfl⟩
    have bounded := before _ (List.getElem_mem inside)
    split_ifs
    · exact bounded
    · exact Nat.zero_le _
    · exact bounded
  · apply forall_modify _ before
    intro stage bounded
    dsimp only
    split_ifs
    · exact min_le_left _ _
    · exact bounded
  · exact forall_modify (fun _ _ => Nat.le_refl 100) before
  · exact forall_modify (fun _ bounded => bounded) before
  · intro stage isStage
    rcases List.mem_map.mp isStage with ⟨other, isOther, rfl⟩
    split_ifs
    · exact before other isOther
    · exact Nat.le_refl 100
  · exact before

theorem FileRow.Tidy.progress (tidy : file.Tidy pipeline id) :
    (file.progress now event).Tidy pipeline id := by
  rw [FileRow.progress]
  by_cases over_ : file.status = .done ∨ file.status = .failed
  · rw [if_pos over_]
    exact tidy
  · rw [if_neg over_]
    refine ⟨tidy.own, (moveStages_verbs ..).trans tidy.mirrors, moveStages_percents tidy.percents,
      ?_⟩
    dsimp only
    exact length_lastEntries (addEntry now event file.log)

omit [Browser] in
theorem FileRow.Tidy.finish (tidy : file.Tidy pipeline id) :
    (file.finish now error).Tidy pipeline id := by
  cases error with
  | none =>
      refine ⟨tidy.own, ?_, ?_, tidy.short⟩
      · simpa [FileRow.finish, Function.comp_def] using tidy.mirrors
      · simp [FileRow.finish]
  | some message =>
      unfold FileRow.finish
      dsimp only
      split_ifs
      · exact tidy
      · refine ⟨tidy.own, ?_, ?_, ?_⟩
        · simpa [Function.comp_def] using tidy.mirrors
        · simpa using tidy.percents
        · dsimp only
          exact length_lastEntries _

omit [Browser] in
theorem FileRow.Tidy.withStages (tidy : file.Tidy pipeline id) (other : List Verb) :
    ({ file with stages := makeStages other } : FileRow).Tidy other id :=
  ⟨tidy.own, makeStages_verbs other, makeStages_percents other, tidy.short⟩

end Rows

section Batches

variable {batch next : Batch} {files : List FileRow} {now : ℕ} {error : Option String}
  {event : ProgressEvent} {jobId : String}

theorem Batch.Tidy.congr (tidy : batch.Tidy) (files : next.files = batch.files)
    (fileOrder : next.fileOrder = batch.fileOrder) (pipeline : next.pipeline = batch.pipeline) :
    next.Tidy := by
  refine ⟨?_, ?_, ?_⟩
  · rw [files, fileOrder]
    exact tidy.order
  · rw [fileOrder]
    exact tidy.once
  · rw [files, pipeline]
    exact tidy.rows

theorem Batch.Tidy.ofRows (files_ : next.files = byId files)
    (fileOrder : next.fileOrder = files.map FileRow.sourceId)
    (fit : RowsFit next.pipeline files) : next.Tidy := by
  refine ⟨?_, ?_, ?_⟩
  · rw [files_, fileOrder]
    exact keys_byId fit.1
  · rw [fileOrder]
    exact fit.1
  · intro id file found
    rw [files_] at found
    rcases mem_of_lookup_byId fit.1 found with ⟨isFile, rfl⟩
    exact fit.2 file isFile

theorem Batch.Tidy.rediscover (once : (files.map FileRow.sourceId).Nodup)
    (short : ∀ file ∈ files, file.log.length ≤ 200) : (batch.rediscover files).Tidy := by
  have same :
      (files.map fun file => ({ file with stages := makeStages batch.pipeline } : FileRow)).map
        FileRow.sourceId = files.map FileRow.sourceId := by
    simp [Function.comp_def]
  apply Batch.Tidy.ofRows rfl same.symm
  refine ⟨same ▸ once, ?_⟩
  intro file isFile
  rcases List.mem_map.mp isFile with ⟨found, isFound, rfl⟩
  exact ⟨rfl, makeStages_verbs _, makeStages_percents _, short found isFound⟩

theorem Batch.Tidy.rowOf (tidy : batch.Tidy) {id : String} (isId : id ∈ batch.fileOrder) :
    ∃ file, batch.files.lookup id = some file := by
  rw [← tidy.order] at isId
  exact exists_lookup_of_mem isId

theorem Batch.Tidy.changePipeline (tidy : batch.Tidy) (pipeline : List Verb) :
    (batch.changePipeline pipeline).Tidy ∧
      ∀ id file, (batch.changePipeline pipeline).files.lookup id = some file →
        ∃ before, batch.files.lookup id = some before ∧
          file = { before with stages := makeStages pipeline } := by
  have rows : ∀ id file, (batch.changePipeline pipeline).files.lookup id = some file →
      ∃ before, batch.files.lookup id = some before ∧
        file = { before with stages := makeStages pipeline } := by
    intro id file found
    rcases List.mem_filterMap.mp (mem_of_lookup found) with ⟨other, _, isEntry⟩
    rcases Option.map_eq_some_iff.mp isEntry with ⟨before, isBefore, same⟩
    cases same
    exact ⟨before, isBefore, rfl⟩
  refine ⟨⟨?_, tidy.once, ?_⟩, rows⟩
  · have all (ids : List String) (inside : ids ⊆ batch.fileOrder) :
        keys (ids.filterMap fun id => (batch.files.lookup id).map fun file =>
          (id, ({ file with stages := makeStages pipeline } : FileRow))) = ids := by
      induction ids with
      | nil => rfl
      | cons id ids ih =>
          rw [List.cons_subset] at inside
          rcases tidy.rowOf inside.1 with ⟨file, found⟩
          simp [found, ih inside.2]
    exact all batch.fileOrder (List.Subset.refl _)
  · intro id file found
    rcases rows id file found with ⟨before, isBefore, rfl⟩
    exact (tidy.rows id before isBefore).withStages pipeline

theorem Batch.Tidy.finish (tidy : batch.Tidy) : (batch.finish now error).Tidy := by
  refine ⟨?_, tidy.once, ?_⟩
  · simpa [Batch.finish] using tidy.order
  · intro id file found
    simp only [Batch.finish, lookup_map_values, Option.map_eq_some_iff] at found
    rcases found with ⟨before, isBefore, rfl⟩
    exact (tidy.rows id before isBefore).finish

/-- The row that an event is about is replaced. -/
theorem Batch.Tidy.progress [Browser] (tidy : batch.Tidy)
    (isNext : batch.progress now event = some next) :
    ∃ file, batch.files.lookup event.sourceId = some file ∧ next =
      { batch with files := dictSet event.sourceId (file.progress now event) batch.files } ∧
        next.Tidy := by
  rcases Option.map_eq_some_iff.mp isNext with ⟨file, found, rfl⟩
  have row := tidy.rows _ file found
  refine ⟨file, found, by rw [row.own], ?_, tidy.once, ?_⟩
  · rw [row.own, keys_dictSet_of_mem (mem_keys_of_lookup found)]
    exact tidy.order
  · intro id other isOther
    dsimp only at isOther
    rw [row.own, lookup_dictSet] at isOther
    split_ifs at isOther with same
    · cases isOther
      rw [same]
      exact row.progress
    · exact tidy.rows id other isOther

end Batches

section Actions

variable [Browser] {state : AppState} {batch : Batch} {now : ℕ} {action : Action}
  {id other : String}

/-- The batch that an action changes. -/
def Action.target : Action → Option String
  | .batchInplaceChanged batchId _ | .batchOutputChanged batchId _ | .pipelineChanged batchId _
  | .filesRediscovered batchId _ _ _ | .fileDiscoveryFailed batchId _ _ _
  | .verbConfigChanged batchId _ _ | .batchStarted batchId _ _ | .progressV2 batchId _ _
  | .batchFinished batchId _ _ | .fileExpanded batchId _ => some batchId
  | _ => none

/-- What an action makes of its batch. -/
def Action.change (now : ℕ) (action : Action) (batch : Batch) : Batch :=
  match action with
  | .batchInplaceChanged _ inPlace => { batch with inPlace := inPlace }
  | .batchOutputChanged _ outputPath => { batch with outputPath := outputPath }
  | .pipelineChanged _ pipeline =>
      if batch.state = .running then batch else batch.changePipeline pipeline
  | .filesRediscovered _ firstStep jobId files =>
      if batch.wants firstStep jobId then batch.rediscover files else batch
  | .fileDiscoveryFailed _ firstStep jobId error =>
      if batch.wants firstStep jobId then
        { batch with state := .idle, needsDiscovery := true, discoveryError := some error }
      else batch
  | .verbConfigChanged _ verb patch => batch.configure verb patch
  | .batchStarted _ jobId files => batch.start now jobId files
  | .progressV2 _ jobId event =>
      if jobId = none ∨ batch.jobId = jobId then (batch.progress now event).getD batch else batch
  | .batchFinished _ jobId error =>
      if batch.jobId = some jobId then batch.finish now error else batch
  | .fileExpanded _ sourceId => { batch with expandedFileId := sourceId }
  | _ => batch

omit [Browser] in
theorem updateIf_eq_update {change : Batch → Option Batch} (tidy : state.Tidy) :
    state.updateIf id change = state.update id fun batch => (change batch).getD batch := by
  unfold AppState.updateIf AppState.update
  cases found : state.batches.lookup id with
  | none => rfl
  | some batch =>
      have same := (tidy.batches id batch found).1
      cases changed : change batch with
      | none =>
          have still : dictSet id batch state.batches = state.batches := dictSet_self found
          simp [changed, still]
      | some next => simp [changed, same]

/-- An action that is about a batch does nothing else. -/
theorem reducer_eq_update (tidy : state.Tidy) (isTarget : action.target = some id) :
    reducer now state action = state.update id (action.change now) := by
  cases action with
  | filesRediscovered | fileDiscoveryFailed | progressV2 | batchFinished =>
      cases isTarget
      rw [reducer, updateIf_eq_update tidy]
      congr 1
      funext batch
      simp only [Action.change]
      split_ifs <;> rfl
  | _ => first | cases isTarget; rfl | cases isTarget

omit [Browser] in
@[simp] theorem lookup_update {change : Batch → Batch} :
    (state.update id change).batches.lookup other =
      if other = id then (state.batches.lookup id).map change else state.batches.lookup other := by
  unfold AppState.update
  cases found : state.batches.lookup id with
  | none =>
      split_ifs with same
      · rw [same]
        exact found
      · rfl
  | some batch => exact lookup_dictSet id other (change batch) state.batches

omit [Browser] in
theorem update_rest (state : AppState) (id : String) (change : Batch → Batch) :
    keys (state.update id change).batches = keys state.batches ∧
      (state.update id change).tabOrder = state.tabOrder ∧
      (state.update id change).activeBatchId = state.activeBatchId := by
  unfold AppState.update
  cases found : state.batches.lookup id with
  | none => exact ⟨rfl, rfl, rfl⟩
  | some batch => exact ⟨keys_dictSet_of_mem (mem_keys_of_lookup found), rfl, rfl⟩

omit [Browser] in
theorem AppState.Tidy.update {change : Batch → Batch} (tidy : state.Tidy)
    (keeps : ∀ batch, state.batches.lookup id = some batch →
      (change batch).id = batch.id ∧ (change batch).Tidy) : (state.update id change).Tidy := by
  rcases update_rest state id change with ⟨same, tabs, front⟩
  refine ⟨?_, ?_, ?_, ?_, ?_, ?_⟩
  · simpa [same] using tidy.once
  · simpa [tabs] using tidy.tabsOnce
  · simpa [tabs, same] using tidy.tabs
  · simpa [tabs, front] using tidy.front
  · simpa [tabs, front] using tidy.shown
  · intro other batch found
    rw [lookup_update] at found
    split_ifs at found with here
    · rcases Option.map_eq_some_iff.mp found with ⟨before, isBefore, rfl⟩
      have known := keeps before isBefore
      exact ⟨known.1.trans ((tidy.batches id before isBefore).1.trans here.symm), known.2⟩
    · exact tidy.batches other batch found

theorem Batch.Tidy.change (tidy : batch.Tidy) (found : state.batches.lookup id = some batch)
    (isTarget : action.target = some id) (fits : action.Fits state) :
    (action.change now batch).id = batch.id ∧ (action.change now batch).Tidy := by
  cases action with
  | pipelineChanged batchId pipeline =>
      simp only [Action.change]
      split_ifs
      · exact ⟨rfl, tidy⟩
      · exact ⟨rfl, (tidy.changePipeline pipeline).1⟩
  | filesRediscovered batchId firstStep jobId files =>
      simp only [Action.change]
      split_ifs
      · exact ⟨rfl, .rediscover fits.1 fits.2⟩
      · exact ⟨rfl, tidy⟩
  | fileDiscoveryFailed batchId firstStep jobId error =>
      simp only [Action.change]
      split_ifs
      · exact ⟨rfl, tidy.congr rfl rfl rfl⟩
      · exact ⟨rfl, tidy⟩
  | batchStarted batchId jobId files =>
      cases isTarget
      exact ⟨rfl, .ofRows rfl rfl (fits batch found)⟩
  | progressV2 batchId jobId event =>
      simp only [Action.change]
      split_ifs
      · cases isNext : batch.progress now event with
        | none => exact ⟨rfl, tidy⟩
        | some next =>
            rcases tidy.progress isNext with ⟨file, _, same, tidyNext⟩
            exact ⟨by simp [same], tidyNext⟩
      · exact ⟨rfl, tidy⟩
  | batchFinished batchId jobId error =>
      simp only [Action.change]
      split_ifs
      · exact ⟨rfl, tidy.finish⟩
      · exact ⟨rfl, tidy⟩
  | _ => exact ⟨rfl, tidy.congr rfl rfl rfl⟩

omit [Browser] in
theorem AppState.Tidy.congr {next : AppState} (tidy : state.Tidy)
    (batches : next.batches = state.batches) (tabOrder : next.tabOrder = state.tabOrder)
    (activeBatchId : next.activeBatchId = state.activeBatchId) : next.Tidy := by
  rcases tidy with ⟨once, tabsOnce, tabs, front, shown, known⟩
  exact ⟨batches ▸ once, tabOrder ▸ tabsOnce, by rwa [batches, tabOrder], by
    rwa [activeBatchId, tabOrder], by rwa [activeBatchId, tabOrder], by rwa [batches]⟩

omit [Browser] in
theorem AppState.Tidy.opened (tidy : state.Tidy) (batchTidy : batch.Tidy) :
    (state.opened batch).Tidy := by
  have tabs : ∀ id, id ∈ (state.opened batch).tabOrder ↔ id = batch.id ∨ id ∈ state.tabOrder := by
    intro id
    simp only [AppState.opened]
    split_ifs with there
    · exact (or_iff_right_of_imp fun same => same ▸ there).symm
    · simp [or_comm]
  refine ⟨nodup_keys_dictSet tidy.once, ?_, ?_, ?_, nofun, ?_⟩
  · simp only [AppState.opened]
    split_ifs with there
    · exact tidy.tabsOnce
    · exact tidy.tabsOnce.append (List.nodup_singleton _) (List.disjoint_singleton.mpr there)
  · intro id
    rw [tabs, tidy.tabs]
    simp [AppState.opened]
  · intro id isFront
    cases isFront
    exact (tabs _).mpr (.inl rfl)
  · intro id other found
    rw [AppState.opened, lookup_dictSet] at found
    split_ifs at found with same
    · cases found
      exact ⟨same.symm, batchTidy⟩
    · exact tidy.batches id other found

omit [Browser] in
theorem AppState.Tidy.closed (tidy : state.Tidy) (batchId : String) :
    (state.closed batchId).Tidy := by
  have isKey : ∀ id, id ∈ keys (state.closed batchId).batches ↔
      id ∈ keys state.batches ∧ id ≠ batchId := by
    intro id
    simp [AppState.closed, keys]
  refine ⟨?_, tidy.tabsOnce.filter _, ?_, ?_, ?_, ?_⟩
  · exact tidy.once.sublist (List.filter_sublist.map _)
  · intro id
    rw [isKey, ← tidy.tabs]
    simp [AppState.closed]
  · intro id isFront
    simp only [AppState.closed] at isFront ⊢
    split_ifs at isFront with same
    · exact List.mem_of_getLast? isFront
    · have there := tidy.front id isFront
      have differ : id ≠ batchId := fun isClosed => same (isClosed ▸ isFront)
      simp [there, differ]
  · intro isNone
    simp only [AppState.closed] at isNone ⊢
    split_ifs at isNone with same
    · exact List.getLast?_eq_none_iff.mp isNone
    · simp [tidy.shown isNone]
  · intro id batch found
    rw [AppState.closed, lookup_filter_ne] at found
    split_ifs at found
    exact tidy.batches id batch found

/-- Every action keeps the store tidy. -/
theorem AppState.Tidy.reducer (tidy : state.Tidy) (fits : action.Fits state) :
    (reducer now state action).Tidy := by
  cases isTarget : action.target with
  | some id =>
      rw [reducer_eq_update tidy isTarget]
      exact tidy.update fun batch found =>
        (tidy.batches id batch found).2.change found isTarget fits
  | none =>
      cases action with
      | batchOpened batch => exact tidy.opened fits
      | batchClosed batchId => exact tidy.closed batchId
      | batchActivated batchId =>
          simp only [Gui.reducer]
          split_ifs with there
          · rcases Option.isSome_iff_exists.mp there with ⟨batch, found⟩
            refine ⟨tidy.once, tidy.tabsOnce, tidy.tabs, ?_, nofun, tidy.batches⟩
            intro id isFront
            cases isFront
            exact (tidy.tabs _).mpr (mem_keys_of_lookup found)
          · exact tidy
      | daemonReady | daemonFailed | daemonProgress | capabilitiesLoaded | settingsToggled
      | settingsUpdated => exact tidy.congr rfl rfl rfl
      | _ => cases isTarget

end Actions

end Batchalign.Gui
