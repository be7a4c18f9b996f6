import Batchalign.Engine.Pipeline
import Batchalign.Library.DispatchPool

/-!
# Runs over many sources

`Pipeline.run` polls a window of futures, one for each input, and every future works under a
permit of the pipeline's semaphore. Without a callback the inputs are converted first and
`buffered` hands the outcomes over in their order. With a callback each future converts its own
input, `buffer_unordered` hands the outcomes over as they come, and a Python exception ends
the run.

What the dispatcher answers the runners of a source depends on everything else that happens,
so the runners are chosen anew for each source.
-/

namespace Batchalign.Engine

open DispatchWindow Transition

section Definitions

/-- What a future is made of: a converted value, or the object it will convert. -/
inductive SourceJob where
  | value (value : BAValue)
  | object (input : SourceInput)

inductive RunMode where
  | values
  | callback (retainOutcomes : Bool)
deriving DecidableEq

abbrev SourceResult := Except String BAValue

abbrev SourceRun := Run RunMode SourceJob ProgressEvent SourceResult String

variable [Compare.ChatFormat] [ValidationGates] {Choice : Type}

/-- A future from its permit to its end. -/
def runJob (inner : PipelineInner) (runners : Task → Option Runner) :
    SourceJob → List ProgressEvent × SourceResult
  | .value value =>
      let ran := runOne { inner with runners := runners } value
      (ran.2, .ok ran.1)
  | .object input => (runSource { inner with runners := runners } input).swap

/-- What the run does with an outcome. `raised` is the exception of the callback, if it is
called and raises one. -/
def consumeOutcome : RunMode → Option String → SourceResult → Option String
  | _, _, .error message => some message
  | .values, _, .ok _ => none
  | .callback _, raised, .ok value => if value.isFailed then none else raised

/-- `answers` is how the dispatcher may answer the runners of a source. -/
def runPolicy (inner : PipelineInner) (answers : Choice → Task → Option Runner)
    (workers : ℕ) :
    Policy RunMode SourceJob Choice ProgressEvent SourceResult (Option String) String where
  window := workers
  ordered mode := mode = .values
  behave choice := runJob inner (answers choice)
  consume := consumeOutcome

/-- A pipeline with its semaphore, and any number of runs on it. -/
def pipelineRuns (inner : PipelineInner) (answers : Choice → Task → Option Runner)
    (workers : ℕ) :
    System (Pool RunMode SourceJob ProgressEvent SourceResult String)
      (PoolEvent RunMode SourceJob Choice (Option String)) :=
  DispatchWindow.system (runPolicy inner answers workers) workers

/-- The loop that converts the inputs of a run without a callback. -/
def convertInputs (inner : PipelineInner) :
    List SourceInput → Except String (List BAValue) × List ProgressEvent
  | [] => (.ok [], [])
  | input :: inputs =>
      match convertInputOrFailure inner input with
      | (.error message, events) => (.error message, events)
      | (.ok value, events) =>
          let rest := convertInputs inner inputs
          (rest.1.map (value :: ·), events ++ rest.2)

/-- The outcomes that have been handed over, with the number of their input. -/
def outcomes (run : SourceRun) : List (ℕ × BAValue) :=
  run.delivered.filterMap fun entry => entry.2.toOption.map (entry.1, ·)

/-- The outcomes the callback was called with, in the order of the calls. -/
def outcomeCalls (run : SourceRun) : List BAValue :=
  ((outcomes run).map Prod.snd).filter fun value => !value.isFailed

/-- What a run that has ended returns. -/
def returned (run : SourceRun) : Option (Except String (List BAValue)) :=
  if run.waiting.isEmpty ∧ run.slots.isEmpty then
    match run.stopped, run.mode with
    | some message, _ => some (.error message)
    | none, .values => some (.ok ((outcomes run).map Prod.snd))
    | none, .callback false => some (.ok [])
    -- `expect("one outcome per input")`
    | none, .callback true => ((placed run.jobs.length (outcomes run)).mapM id).map .ok
  else none

end Definitions

section Returns

theorem consumeOutcome_error (mode : RunMode) (raised : Option String) (message : String) :
    consumeOutcome mode raised (.error message) = some message := by
  cases mode <;> rfl

theorem consumeOutcome_ok {mode : RunMode} {raised : Option String} {value : BAValue}
    {message : String} (refused : consumeOutcome mode raised (.ok value) = some message) :
    ∃ retain, mode = .callback retain ∧ value.isFailed = false := by
  cases mode with
  | values => cases refused
  | callback retain =>
      cases failed : value.isFailed with
      | true => simp [consumeOutcome, failed] at refused
      | false => exact ⟨retain, rfl, rfl⟩

theorem exists_ok_of_consume {mode : RunMode} {raised : Option String} {result : SourceResult}
    (accepted : consumeOutcome mode raised result = none) : ∃ value, result = .ok value := by
  cases result with
  | ok value => exact ⟨value, rfl⟩
  | error message =>
      rw [consumeOutcome_error] at accepted
      cases accepted

theorem exists_map_ok {results : List SourceResult}
    (ok : ∀ result ∈ results, ∃ value, result = .ok value) :
    ∃ values : List BAValue, results = values.map .ok := by
  induction results with
  | nil => exact ⟨[], rfl⟩
  | cons result results ih =>
      rcases ok result List.mem_cons_self with ⟨value, rfl⟩
      rcases ih fun other isResult => ok other (List.mem_cons_of_mem _ isResult) with ⟨values, rfl⟩
      exact ⟨value :: values, rfl⟩

theorem filterMap_zip_ok (places : List ℕ) (values : List BAValue) :
    (places.zip (values.map Except.ok)).filterMap
      (fun entry : ℕ × SourceResult => entry.2.toOption.map (entry.1, ·)) =
        places.zip values := by
  rw [List.zip_map_right, List.filterMap_map]
  exact List.filterMap_some

theorem outcomeCalls_perm {run : SourceRun} {values : List BAValue}
    (length : values.length = run.jobs.length)
    (handed : (outcomes run).Perm ((List.range run.jobs.length).zip values)) :
    (outcomeCalls run).Perm (values.filter fun value => !value.isFailed) := by
  have calls := handed.map Prod.snd
  rw [List.map_snd_zip (by simp [length])] at calls
  exact calls.filter _

/-- What a finished run returns. The list of the places has no gap. -/
theorem returned_eq {run : SourceRun} {values : List BAValue} (finished : run.Finished)
    (going : run.stopped = none) (length : values.length = run.jobs.length)
    (handed : (outcomes run).Perm ((List.range run.jobs.length).zip values))
    (inOrder : run.mode = .values → (outcomes run).map Prod.snd = values) :
    returned run = some (.ok (if run.mode = .callback false then [] else values)) := by
  rcases finished with ⟨waiting, slots⟩
  cases mode : run.mode with
  | values =>
      rw [← inOrder mode]
      simp [returned, waiting, slots, going, mode]
  | callback retainOutcomes =>
      cases retainOutcomes with
      | false => simp [returned, waiting, slots, going, mode]
      | true =>
          rw [← length] at handed
          have full := placed_of_perm handed
          have all : values.mapM some = some values := by
            simpa using List.mapM_pure (m := Option) (l := values) (f := id)
          simp [returned, waiting, slots, going, mode, ← length, full, all]

theorem finished_of_returned {run : SourceRun} {result : Except String (List BAValue)}
    (returns : returned run = some result) : run.Finished := by
  by_contra left
  have notEmpty : ¬(run.waiting.isEmpty ∧ run.slots.isEmpty) := by
    simpa [Run.Finished] using left
  rw [returned, if_neg notEmpty] at returns
  cases returns

theorem returned_of_stopped {run : SourceRun} {message : String} (finished : run.Finished)
    (stopped : run.stopped = some message) : returned run = some (.error message) := by
  simp [returned, finished.1, finished.2, stopped]

variable [Compare.ChatFormat] [ValidationGates] {Choice : Type} {inner : PipelineInner}
  {answers : Choice → Task → Option Runner} {workers : ℕ}
  {pool : Pool RunMode SourceJob ProgressEvent SourceResult String} {run : SourceRun}

/-- A run that is not ended by an exception has handed over outcomes only. -/
theorem exists_ok (judged : Judged (runPolicy inner answers workers) run)
    (going : run.stopped = none) :
    ∀ entry ∈ run.delivered, ∃ value, entry.2 = .ok value := by
  intro entry isDelivered
  rcases judged.accepted going entry isDelivered with ⟨raised, accepted⟩
  exact exists_ok_of_consume accepted

/-- The books of a run that has ended without an exception: what each source did, and that
the outcomes handed over are these. -/
theorem exists_values (lawful : Lawful (runPolicy inner answers workers) run)
    (judged : Judged (runPolicy inner answers workers) run) (finished : run.Finished)
    (going : run.stopped = none) :
    ∃ values : List BAValue, values.length = run.jobs.length ∧
      (outcomes run).Perm ((List.range run.jobs.length).zip values) ∧
      (run.mode = .values → (outcomes run).map Prod.snd = values) ∧
      ∀ place job, run.jobs[place]? = some job → ∃ choice value, values[place]? = some value ∧
        runJob inner (answers choice) job = (run.logAt place, .ok value) := by
  rcases lawful.exists_results finished going with ⟨results, length, isPerm, inOrder, behaves⟩
  have allOk : ∀ result ∈ results, ∃ value, result = .ok value := by
    intro result isResult
    have handed : ((List.range run.jobs.length).zip results).map Prod.snd = results :=
      List.map_snd_zip (by simp [length])
    rw [← handed, List.mem_map] at isResult
    rcases isResult with ⟨entry, isEntry, rfl⟩
    exact exists_ok judged going entry (isPerm.mem_iff.mpr isEntry)
  rcases exists_map_ok allOk with ⟨values, rfl⟩
  rw [List.length_map] at length
  refine ⟨values, length, ?_, ?_, ?_⟩
  · have mapped := isPerm.filterMap
      fun entry : ℕ × SourceResult => entry.2.toOption.map (entry.1, ·)
    rwa [filterMap_zip_ok] at mapped
  · intro ordered
    have delivered := inOrder (by simp [runPolicy, ordered])
    rw [outcomes, delivered, filterMap_zip_ok]
    exact List.map_snd_zip (by simp [length])
  · intro place job isJob
    rcases behaves place job isJob with ⟨choice, result, isResult, ran⟩
    rw [List.getElem?_map, Option.map_eq_some_iff] at isResult
    rcases isResult with ⟨value, isValue, rfl⟩
    exact ⟨choice, value, isValue, ran⟩

/-- A run has returned as soon as nothing is left in it. -/
theorem returned_isSome (lawful : Lawful (runPolicy inner answers workers) run)
    (judged : Judged (runPolicy inner answers workers) run) (finished : run.Finished) :
    (returned run).isSome := by
  cases stopped : run.stopped with
  | some message => simp [returned_of_stopped finished stopped]
  | none =>
      rcases exists_values lawful judged finished stopped
        with ⟨values, length, handed, inOrder, _⟩
      simp [returned_eq finished stopped length handed inOrder]

/-- What the sources did, when a run has returned outcomes. -/
theorem exists_values_of_returned (lawful : Lawful (runPolicy inner answers workers) run)
    (judged : Judged (runPolicy inner answers workers) run) {returnedValues : List BAValue}
    (returns : returned run = some (.ok returnedValues)) :
    ∃ values : List BAValue, values.length = run.jobs.length ∧
      (outcomeCalls run).Perm (values.filter fun value => !value.isFailed) ∧
      returnedValues = (if run.mode = .callback false then [] else values) ∧
      ∀ place job, run.jobs[place]? = some job → ∃ choice value, values[place]? = some value ∧
        runJob inner (answers choice) job = (run.logAt place, .ok value) := by
  have finished := finished_of_returned returns
  cases stopped : run.stopped with
  | some message =>
      rw [returned_of_stopped finished stopped] at returns
      cases returns
  | none =>
      rcases exists_values lawful judged finished stopped
        with ⟨values, length, handed, inOrder, behaves⟩
      rw [returned_eq finished stopped length handed inOrder] at returns
      cases returns
      exact ⟨values, length, outcomeCalls_perm length handed, rfl, behaves⟩

/-- The exception of a run comes from the last future that was handed over: its input has no
source id, or the callback raised it on an outcome that has not failed. -/
theorem exists_last_of_returned (lawful : Lawful (runPolicy inner answers workers) run)
    (judged : Judged (runPolicy inner answers workers) run) {message : String}
    (returns : returned run = some (.error message)) :
    ∃ earlier place result, run.delivered = earlier ++ [(place, result)] ∧
      (∀ entry ∈ earlier, ∃ value, entry.2 = .ok value) ∧
      (result = .error message ∨ ∃ value retain, result = .ok value ∧
        run.mode = .callback retain ∧ value.isFailed = false) := by
  have finished := finished_of_returned returns
  cases stopped : run.stopped with
  | none =>
      rcases exists_values lawful judged finished stopped
        with ⟨values, length, handed, inOrder, _⟩
      rw [returned_eq finished stopped length handed inOrder] at returns
      cases returns
  | some reason =>
      rw [returned_of_stopped finished stopped] at returns
      cases returns
      rcases (judged.refused message stopped).2
        with ⟨earlier, ⟨place, result⟩, raised, delivered, refused, accepted⟩
      refine ⟨earlier, place, result, delivered, ?_, ?_⟩
      · intro entry isEarlier
        rcases accepted entry isEarlier with ⟨raised, accepted⟩
        exact exists_ok_of_consume accepted
      · have refused : consumeOutcome run.mode raised result = some message := refused
        cases result with
        | error other =>
            rw [consumeOutcome_error, Option.some.injEq] at refused
            exact .inl (congrArg Except.error refused)
        | ok value =>
            rcases consumeOutcome_ok refused with ⟨retain, mode, alive⟩
            exact .inr ⟨value, retain, rfl, mode, alive⟩

end Returns

section Runs

variable [Compare.ChatFormat] [ValidationGates] {Choice : Type} {inner : PipelineInner}
  {answers : Choice → Task → Option Runner} {workers : ℕ}
  {pool : Pool RunMode SourceJob ProgressEvent SourceResult String} {run : SourceRun}

theorem poolLawful_of_reachable
    (reachable : (pipelineRuns inner answers workers).Reachable pool) :
    PoolLawful (runPolicy inner answers workers) workers pool :=
  poolLawful.reachable reachable

/-- Whatever the schedule, a run that returns outcomes returns for each input what its source
did, or nothing at all when it does not keep them, and its callback has been called once with
each outcome that has not failed. An exception ends the run at the first future that raises
one, or on whose outcome the callback does. -/
theorem returns_each_source
    (reachable : (pipelineRuns inner answers workers).Reachable pool) (isRun : run ∈ pool.runs) :
    (∀ returnedValues, returned run = some (.ok returnedValues) →
      ∃ values : List BAValue, values.length = run.jobs.length ∧
        (outcomeCalls run).Perm (values.filter fun value => !value.isFailed) ∧
        returnedValues = (if run.mode = .callback false then [] else values) ∧
        ∀ place job, run.jobs[place]? = some job → ∃ choice value,
          values[place]? = some value ∧
            runJob inner (answers choice) job = (run.logAt place, .ok value)) ∧
    ∀ message, returned run = some (.error message) →
      ∃ earlier place result, run.delivered = earlier ++ [(place, result)] ∧
        (∀ entry ∈ earlier, ∃ value, entry.2 = .ok value) ∧
        (result = .error message ∨ ∃ value retain, result = .ok value ∧
          run.mode = .callback retain ∧ value.isFailed = false) := by
  have books := (poolLawful_of_reachable reachable).runs run isRun
  exact ⟨fun _ returns => exists_values_of_returned books.1 books.2 returns,
    fun _ returns => exists_last_of_returned books.1 books.2 returns⟩

/-- However the runs of a pipeline are scheduled, no more sources than workers are at work at a
time, and no more in the window of one run. The runs that have been started can always be
brought to their ends, and no schedule of them goes on forever. -/
theorem admission_bounded_and_live [Nonempty Choice] (someWorkers : 0 < workers)
    (reachable : (pipelineRuns inner answers workers).Reachable pool) :
    (pool.held ≤ workers ∧ ∀ run ∈ pool.runs, run.slots.length ≤ workers) ∧
    (∃ events final, (∀ event ∈ events, event.ofRun) ∧
      (pipelineRuns inner answers workers).run pool events = some final ∧
      final.calls = pool.calls ∧ ∀ run ∈ final.runs, (returned run).isSome) ∧
    ∀ (pools : ℕ → Pool RunMode SourceJob ProgressEvent SourceResult String)
      (events : ℕ → PoolEvent RunMode SourceJob Choice (Option String)),
      (∀ time, (events time).ofRun) →
        ∃ time, (pipelineRuns inner answers workers).step (pools time) (events time) ≠
          some (pools (time + 1)) := by
  have books := poolLawful_of_reachable reachable
  refine ⟨⟨?_, ?_⟩, ?_, ?_⟩
  · have permits := books.permits
    omega
  · exact fun run isRun => (books.runs run isRun).1.admitted
  · rcases ‹Nonempty Choice› with ⟨choice⟩
    rcases poolLawful.exists_run Pool.wellFounded_less
      (fun _ _ _ ofRun steps => Pool.less_of_step ofRun steps)
      (fun pool lawful => lawful.progress choice none someWorkers someWorkers) books
      with ⟨events, final, ofRuns, runs, finished⟩
    have finalBooks := poolLawful.run books runs
    refine ⟨events, final, ofRuns, runs, Pool.calls_of_run ofRuns runs, ?_⟩
    intro run isRun
    have known := finalBooks.runs run isRun
    exact returned_isSome known.1 known.2 (finished run isRun)
  · exact fun pools events ofRuns =>
      System.not_forever Pool.wellFounded_less (fun _ _ _ => Pool.less_of_step) pools events ofRuns

end Runs

section Paths

theorem convertInputs_ok {inner : PipelineInner} {inputs : List SourceInput}
    {values : List BAValue} (converts : (convertInputs inner inputs).1 = .ok values) :
    values.length = inputs.length ∧ ∀ (place : ℕ) input, inputs[place]? = some input →
      ∃ value, values[place]? = some value ∧
        (convertInputOrFailure inner input).1 = .ok value := by
  induction inputs generalizing values with
  | nil =>
      cases converts
      exact ⟨rfl, nofun⟩
  | cons input inputs ih =>
      rw [convertInputs] at converts
      rcases converted : convertInputOrFailure inner input with ⟨result, events⟩
      rw [converted] at converts
      cases result with
      | error message => cases converts
      | ok value =>
          cases rest : (convertInputs inner inputs).1 with
          | error message => simp [rest, Except.map] at converts
          | ok values' =>
              have isCons : value :: values' = values := by
                simpa [rest, Except.map] using converts
              subst isCons
              refine ⟨congrArg (· + 1) (ih rest).1, ?_⟩
              intro place other isInput
              cases place with
              | zero =>
                  cases isInput
                  exact ⟨value, rfl, by rw [converted]⟩
              | succ place => exact (ih rest).2 place other isInput

theorem convertInputOrFailure_runners (inner : PipelineInner)
    (runners : Task → Option Runner) (input : SourceInput) :
    convertInputOrFailure { inner with runners := runners } input =
      convertInputOrFailure inner input := by
  rcases input with ⟨recovered, converted⟩
  cases converted <;> cases recovered <;> rfl

variable [Compare.ChatFormat] [ValidationGates] {Choice : Type} {inner : PipelineInner}
  {answers : Choice → Task → Option Runner}

/-- A future that converts its own input does the same as one that is given the value. -/
theorem runJob_object {runners : Task → Option Runner} {input : SourceInput} {value : BAValue}
    (converts : (convertInputOrFailure inner input).1 = .ok value) :
    runJob inner runners (.object input) =
      ((convertInputOrFailure inner input).2 ++ (runJob inner runners (.value value)).1,
        (runJob inner runners (.value value)).2) := by
  rcases converted : convertInputOrFailure inner input with ⟨result, events⟩
  rw [converted] at converts
  subst converts
  simp [runJob, runSource, convertInputOrFailure_runners, converted]

/-- A run that streams its outcomes agrees with one that returns them, whatever the schedules
and the numbers of workers: the same outcomes for the same inputs, and of each source the same
events, but for those of its conversion, which the second emits before it starts. -/
theorem streamed_agrees_with_returned [Subsingleton Choice] {inputs : List SourceInput}
    {values : List BAValue} (converts : (convertInputs inner inputs).1 = .ok values)
    {workers otherWorkers : ℕ}
    {pool other : Pool RunMode SourceJob ProgressEvent SourceResult String}
    (reachable : (pipelineRuns inner answers workers).Reachable pool)
    (otherReachable : (pipelineRuns inner answers otherWorkers).Reachable other)
    {direct streamed : SourceRun} (isDirect : direct ∈ pool.runs)
    (isStreamed : streamed ∈ other.runs)
    (directCall : direct.mode = .values ∧ direct.jobs = values.map .value)
    (streamedCall : streamed.mode = .callback true ∧ streamed.jobs = inputs.map .object)
    {directValues streamedValues : List BAValue}
    (directReturns : returned direct = some (.ok directValues))
    (streamedReturns : returned streamed = some (.ok streamedValues)) :
    streamedValues = directValues ∧
      ∀ (place : ℕ) input, inputs[place]? = some input →
        streamed.logAt place = (convertInputOrFailure inner input).2 ++ direct.logAt place := by
  have directBooks := (poolLawful_of_reachable reachable).runs direct isDirect
  have streamedBooks := (poolLawful_of_reachable otherReachable).runs streamed isStreamed
  rcases exists_values_of_returned directBooks.1 directBooks.2 directReturns
    with ⟨ran, length, _, same, did⟩
  rcases exists_values_of_returned streamedBooks.1 streamedBooks.2 streamedReturns
    with ⟨ran', length', _, same', did'⟩
  rw [directCall.1, if_neg (by decide)] at same
  rw [streamedCall.1, if_neg (by decide)] at same'
  subst same same'
  rw [directCall.2, List.length_map, (convertInputs_ok converts).1] at length
  rw [streamedCall.2, List.length_map] at length'
  have both : ∀ (place : ℕ) input, inputs[place]? = some input →
      streamedValues[place]? = directValues[place]? ∧
        streamed.logAt place = (convertInputOrFailure inner input).2 ++ direct.logAt place := by
    intro place input isInput
    rcases (convertInputs_ok converts).2 place input isInput with ⟨value, isValue, converted⟩
    rcases did place (.value value) (by simp [directCall.2, isValue])
      with ⟨choice, outcome, isOutcome, ran⟩
    rcases did' place (.object input) (by simp [streamedCall.2, isInput])
      with ⟨choice', outcome', isOutcome', ran'⟩
    rw [Subsingleton.elim choice' choice, runJob_object converted, ran] at ran'
    simp only [Prod.mk.injEq, Except.ok.injEq] at ran'
    rw [isOutcome, isOutcome', ran'.2]
    exact ⟨rfl, ran'.1.symm⟩
  refine ⟨?_, fun place input isInput => (both place input isInput).2⟩
  apply List.ext_getElem?
  intro place
  cases isInput : inputs[place]? with
  | some input => exact (both place input isInput).1
  | none =>
      rw [List.getElem?_eq_none_iff] at isInput
      rw [List.getElem?_eq_none (length'.trans_le isInput),
        List.getElem?_eq_none (length.trans_le isInput)]

end Paths

section Instances

/-- A pipeline without stages. -/
def emptyPipeline : PipelineInner where
  order := []
  runners _ := none
  stampProvenance _ chat := chat
  trace := none

def talk : BAValue := .media ⟨"talk", "talk.wav", none⟩

/-- A run over one recording, from its start to its end. -/
def oneSource (mode : RunMode) (job : SourceJob) :
    List (PoolEvent RunMode SourceJob Unit (Option String)) :=
  [.start mode [job], .run 0 .enter, .run 0 (.acquire 0 ()), .run 0 (.emit 0),
    .run 0 (.complete 0), .run 0 (.deliver 0 none)]

def endedRun (mode : RunMode) (job : SourceJob) : SourceRun where
  mode := mode
  jobs := [job]
  waiting := []
  slots := []
  log := [(0, sourceCompleted "talk")]
  delivered := [(0, .ok talk)]
  stopped := none

theorem reachable_streamed :
    (pipelineRuns emptyPipeline (fun _ : Unit => emptyPipeline.runners) 2).Reachable
      ⟨2, [endedRun (.callback true) (.object recording)]⟩ :=
  ⟨⟨2, []⟩, oneSource (.callback true) (.object recording), rfl, rfl⟩

theorem reachable_direct :
    (pipelineRuns emptyPipeline (fun _ : Unit => emptyPipeline.runners) 1).Reachable
      ⟨1, [endedRun .values (.value talk)]⟩ :=
  ⟨⟨1, []⟩, oneSource .values (.value talk), rfl, rfl⟩

/-- The callback is called with the recording. -/
theorem returns_recording :
    ∃ values : List BAValue, values.length = 1 ∧
      (outcomeCalls (endedRun (.callback true) (.object recording))).Perm
        (values.filter fun value => !value.isFailed) ∧ [talk] = values :=
  (returns_each_source reachable_streamed List.mem_cons_self).1 [talk] rfl |>.imp
    fun _ known => ⟨known.1, known.2.1, known.2.2.1⟩

theorem one_worker_live :
    ∃ events final, (∀ event ∈ events, event.ofRun) ∧
      (pipelineRuns emptyPipeline (fun _ : Unit => emptyPipeline.runners) 1).run
        ⟨1, [.start .values [.value talk]]⟩ events = some final ∧
      final.calls = [(.values, [.value talk])] ∧ ∀ run ∈ final.runs, (returned run).isSome :=
  (admission_bounded_and_live (by decide)
    ⟨⟨1, []⟩, [.start .values [.value talk]], rfl, rfl⟩).2.1

theorem recording_agrees :
    [talk] = [talk] ∧ ∀ (place : ℕ) input, [recording][place]? = some input →
      (endedRun (.callback true) (.object recording)).logAt place =
        (convertInputOrFailure emptyPipeline input).2 ++
          (endedRun .values (.value talk)).logAt place :=
  streamed_agrees_with_returned
    (show (convertInputs emptyPipeline [recording]).1 = .ok [talk] from rfl)
    reachable_direct reachable_streamed List.mem_cons_self List.mem_cons_self ⟨rfl, rfl⟩
    ⟨rfl, rfl⟩ rfl rfl

end Instances

end Batchalign.Engine
