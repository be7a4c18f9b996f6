import Batchalign.Library.DispatchWindow

/-!
# Runs that share permits

Permits move between a pool and the jobs of its runs and are never lost, so a pool with at
least one permit is never stuck, and no schedule of its runs is infinite. When a run has
finished, what it delivered is what its jobs did, each once.
-/

namespace DispatchWindow

open Transition

section Permits

variable {Mode Job Choice Notice Result Answer Stop : Type*}
  {policy : Policy Mode Job Choice Notice Result Answer Stop} {permits free workers : ℕ}
  {run next : Run Mode Job Notice Result Stop} {event : RunEvent Choice Answer}
  {pool later : Pool Mode Job Notice Result Stop}

/-- Permits move between the pool and the jobs. -/
theorem Fires.held_add (fires : Fires policy permits run event free next) :
    free + next.held = permits + run.held := by
  cases fires with
  | enter first room => simp [Run.held, Phase.holdsPermit]
  | acquire choice found isFree =>
      simp only [Run.held, found, isFree, List.countP_append, List.countP_cons,
        Phase.holdsPermit, if_true, if_neg Bool.false_ne_true]
      omega
  | emit found =>
      simp [Run.held, found, Phase.holdsPermit]
  | complete found =>
      simp only [Run.held, found, List.countP_append, List.countP_cons,
        Phase.holdsPermit, if_true, if_neg Bool.false_ne_true]
      omega
  | deliver answer found inOrder accepted => simp [Run.held, found, Phase.holdsPermit]
  | stop answer found inOrder refused => simp [Run.held, found, Phase.holdsPermit]

/-- A run event of a pool, with the runs around the one that moves. -/
theorem Pool.exists_split {index : ℕ}
    (steps : pool.step policy (.run index event) = some later) :
    ∃ before run after next, pool.runs = before ++ run :: after ∧
      later.runs = before ++ next :: after ∧
        Fires policy pool.permits run event later.permits next := by
  rcases Option.map_eq_some_iff.mp steps with ⟨⟨free, moved⟩, stepped, isLater⟩
  subst isLater
  rcases exists_split_of_stepAt stepped with ⟨before, run, after, next, runs, isMoved, moves⟩
  exact ⟨before, run, after, next, runs, isMoved, .of_step moves⟩

/-- The only run of a pool is the one that moves. -/
theorem Pool.exists_single {index : ℕ} (isRun : pool.runs = [run])
    (steps : pool.step policy (.run index event) = some later) :
    ∃ next, later.runs = [next] ∧ Fires policy pool.permits run event later.permits next := by
  rcases Pool.exists_split steps with ⟨before, moving, after, next, runs, laterRuns, fires⟩
  obtain ⟨rfl, rfl, rfl⟩ : before = [] ∧ moving = run ∧ after = [] := by
    rw [isRun] at runs
    cases before with
    | nil => simpa [eq_comm] using runs
    | cons first before => simp at runs
  exact ⟨next, laterRuns, fires⟩

/-- The books of a pool with so many permits. -/
structure PoolLawful (policy : Policy Mode Job Choice Notice Result Answer Stop)
    (workers : ℕ) (pool : Pool Mode Job Notice Result Stop) : Prop where
  runs : ∀ run ∈ pool.runs, Lawful policy run ∧ Judged policy run
  permits : pool.permits + pool.held = workers

theorem poolLawful : (system policy workers).Invariant (PoolLawful policy workers) where
  initial pool isInitial := by
    subst isInitial
    exact ⟨nofun, rfl⟩
  step pool event later lawful steps := by
    cases event with
    | start mode jobs =>
        cases steps
        refine ⟨?_, ?_⟩
        · intro run isRun
          rcases List.mem_append.mp isRun with earlier | isLast
          · exact lawful.runs run earlier
          · rw [List.mem_singleton] at isLast
            subst isLast
            exact ⟨.start mode jobs, .start mode jobs⟩
        · have permits := lawful.permits
          simpa [Pool.held, Run.held, Run.start] using permits
    | run index event =>
        rcases Pool.exists_split steps with ⟨before, run, after, next, runs, laterRuns, fires⟩
        have known := lawful.runs run (by simp [runs])
        refine ⟨?_, ?_⟩
        · intro other isRun
          rw [laterRuns] at isRun
          simp only [List.mem_append, List.mem_cons] at isRun
          rcases isRun with isBefore | rfl | isAfter
          · exact lawful.runs other (by simp [runs, isBefore])
          · exact ⟨known.1.fires fires, known.2.fires fires⟩
          · exact lawful.runs other (by simp [runs, isAfter])
        · have permits := lawful.permits
          have moved := fires.held_add
          simp only [Pool.held, runs, laterRuns, List.map_append, List.map_cons,
            List.sum_append, List.sum_cons] at permits ⊢
          omega

end Permits

section Progress

variable {Mode Job Choice Notice Result Answer Stop : Type*}
  {policy : Policy Mode Job Choice Notice Result Answer Stop} {permits free workers : ℕ}
  {run next : Run Mode Job Notice Result Stop} {event : RunEvent Choice Answer}
  {pool later : Pool Mode Job Notice Result Stop}

/-- The admissions and the starts that lie ahead. -/
def Run.ahead (run : Run Mode Job Notice Result Stop) : ℕ :=
  2 * run.waiting.length + run.slots.countP fun slot => slot.phase.isQueued

def Phase.work : Phase Notice Result → ℕ
  | .queued => 0
  | .running rest _ => rest.length + 2
  | .done _ => 1

/-- What the jobs that have started still have to do. -/
def Run.work (run : Run Mode Job Notice Result Stop) : ℕ :=
  (run.slots.map fun slot => slot.phase.work).sum

theorem Fires.decreases (fires : Fires policy permits run event free next) :
    next.ahead < run.ahead ∨ next.ahead = run.ahead ∧ next.work < run.work := by
  cases fires with
  | enter first room =>
      left
      simp only [Run.ahead, first, List.length_cons, List.countP_append, List.countP_cons,
        List.countP_nil, Phase.isQueued, if_true]
      omega
  | acquire choice found isFree =>
      left
      simp [Run.ahead, Phase.isQueued, found]
  | emit found =>
      right
      refine ⟨by simp [Run.ahead, Phase.isQueued, found], ?_⟩
      simp [Run.work, Phase.work, found]
  | complete found =>
      right
      refine ⟨by simp [Run.ahead, Phase.isQueued, found], ?_⟩
      simp [Run.work, Phase.work, found]
  | deliver answer found inOrder accepted =>
      right
      refine ⟨by simp [Run.ahead, Phase.isQueued, found], ?_⟩
      simp [Run.work, Phase.work, found]
  | stop answer found inOrder refused =>
      by_cases nothing : run.ahead = 0
      · right
        refine ⟨nothing.symm, ?_⟩
        simp [Run.work, Phase.work, found]
      · left
        exact Nat.pos_of_ne_zero nothing

/-- Events of runs, as opposed to a new run. -/
def PoolEvent.ofRun : PoolEvent Mode Job Choice Answer → Prop
  | .start _ _ => False
  | .run _ _ => True

def Pool.measure (pool : Pool Mode Job Notice Result Stop) : ℕ × ℕ :=
  ((pool.runs.map Run.ahead).sum, (pool.runs.map Run.work).sum)

/-- Less lies ahead, or as much with less to do. -/
def Pool.Less (later pool : Pool Mode Job Notice Result Stop) : Prop :=
  Prod.Lex (· < ·) (· < ·) later.measure pool.measure

theorem Pool.wellFounded_less :
    WellFounded (Pool.Less : Pool Mode Job Notice Result Stop → _ → Prop) :=
  InvImage.wf Pool.measure (WellFounded.prod_lex wellFounded_lt wellFounded_lt)

theorem Pool.less_of_step {event : PoolEvent Mode Job Choice Answer} (ofRun : event.ofRun)
    (steps : pool.step policy event = some later) : later.Less pool := by
  cases event with
  | start mode jobs => cases ofRun
  | run index event =>
      rcases Pool.exists_split steps with ⟨before, run, after, next, runs, laterRuns, fires⟩
      rw [Pool.Less, Prod.lex_def]
      simp only [Pool.measure, runs, laterRuns, List.map_append, List.map_cons,
        List.sum_append, List.sum_cons]
      rcases fires.decreases with less | ⟨same, less⟩
      · left
        omega
      · right
        omega

/-- What a pool was asked to run. -/
def Pool.calls (pool : Pool Mode Job Notice Result Stop) : List (Mode × List Job) :=
  pool.runs.map fun run => (run.mode, run.jobs)

theorem Fires.call (fires : Fires policy permits run event free next) :
    (next.mode, next.jobs) = (run.mode, run.jobs) := by
  cases fires <;> rfl

theorem Pool.calls_of_step {event : PoolEvent Mode Job Choice Answer} (ofRun : event.ofRun)
    (steps : pool.step policy event = some later) : later.calls = pool.calls := by
  cases event with
  | start mode jobs => cases ofRun
  | run index event =>
      rcases Pool.exists_split steps with ⟨before, run, after, next, runs, laterRuns, fires⟩
      simp [Pool.calls, runs, laterRuns, fires.call]

theorem Pool.calls_of_run {events : List (PoolEvent Mode Job Choice Answer)}
    (ofRuns : ∀ event ∈ events, event.ofRun)
    (runs : (system policy workers).run pool events = some later) :
    later.calls = pool.calls := by
  induction events generalizing pool with
  | nil =>
      cases runs
      rfl
  | cons event events ih =>
      rw [System.run_cons] at runs
      rcases Option.bind_eq_some_iff.mp runs with ⟨middle, steps, rest⟩
      have first := Pool.calls_of_step (ofRuns event List.mem_cons_self) steps
      exact (ih (fun other isEvent => ofRuns other (List.mem_cons_of_mem _ isEvent)) rest).trans
        first

theorem exists_step_of_running (found : ∃ slot ∈ run.slots, slot.phase.holdsPermit = true) :
    ∃ event, (run.step policy permits event).isSome := by
  rcases found with ⟨⟨place, job, phase⟩, isSlot, holds⟩
  rcases List.getElem?_of_mem isSlot with ⟨position, found⟩
  cases phase with
  | queued => cases holds
  | running rest result =>
      cases rest with
      | nil => exact ⟨.complete position, by simp [Run.step, found]⟩
      | cons notice rest => exact ⟨.emit position, by simp [Run.step, found]⟩
  | done result => cases holds

theorem exists_step_of_queued (choice : Choice)
    (found : ∃ slot ∈ run.slots, slot.phase.isQueued = true) (isFree : 0 < permits) :
    ∃ event, (run.step policy permits event).isSome := by
  rcases found with ⟨⟨place, job, phase⟩, isSlot, isQueued⟩
  rcases List.getElem?_of_mem isSlot with ⟨position, found⟩
  rcases Nat.exists_eq_add_one_of_ne_zero isFree.ne' with ⟨free, rfl⟩
  cases phase with
  | queued => exact ⟨.acquire position choice, by simp [Run.step, found]⟩
  | running rest result => cases isQueued
  | done result => cases isQueued

/-- When nothing starts or runs, the first slot can be delivered, whatever the mode. -/
theorem exists_step_of_done (answer : Answer) (room : 0 < policy.window)
    (left : ¬run.Finished) (notQueued : ∀ slot ∈ run.slots, slot.phase.isQueued = false)
    (notRunning : ∀ slot ∈ run.slots, slot.phase.holdsPermit = false) :
    ∃ event, (run.step policy permits event).isSome := by
  cases slots : run.slots with
  | nil =>
      cases waiting : run.waiting with
      | nil => exact absurd ⟨waiting, slots⟩ left
      | cons entry waiting' => exact ⟨.enter, by simp [Run.step, waiting, slots, room]⟩
  | cons slot after =>
      rcases slot with ⟨place, job, phase⟩
      have isSlot : (⟨place, job, phase⟩ : Slot Job Notice Result) ∈ run.slots := by
        simp [slots]
      cases phase with
      | queued => cases notQueued _ isSlot
      | running rest result => cases notRunning _ isSlot
      | done result =>
          refine ⟨.deliver 0 answer, ?_⟩
          have first : run.slots[0]? = some ⟨place, job, .done result⟩ := by simp [slots]
          simp only [Run.step, first, ne_eq, not_true_eq_false, and_false, if_false]
          cases policy.consume run.mode answer result <;> rfl

theorem exists_step (choice : Choice) (answer : Answer) (room : 0 < policy.window)
    (left : ¬run.Finished)
    (isFree : 0 < permits ∨ ∃ slot ∈ run.slots, slot.phase.holdsPermit = true) :
    ∃ event, (run.step policy permits event).isSome := by
  by_cases running : ∃ slot ∈ run.slots, slot.phase.holdsPermit = true
  · exact exists_step_of_running running
  · by_cases queued : ∃ slot ∈ run.slots, slot.phase.isQueued = true
    · exact exists_step_of_queued choice queued (isFree.resolve_right running)
    · simp only [not_exists, not_and, Bool.not_eq_true] at running queued
      exact exists_step_of_done answer room left queued running

def Pool.Finished (pool : Pool Mode Job Notice Result Stop) : Prop :=
  ∀ run ∈ pool.runs, run.Finished

theorem Pool.step_of_run {index : ℕ} (isRun : pool.runs[index]? = some run)
    (moves : ∃ event, (run.step policy pool.permits event).isSome) :
    ∃ event later, event.ofRun ∧ pool.step policy event = some later := by
  rcases moves with ⟨event, moves⟩
  rcases Option.isSome_iff_exists.mp moves with ⟨moved, moves⟩
  refine ⟨.run index event, ⟨moved.1, pool.runs.set index moved.2⟩, trivial, ?_⟩
  simp [Pool.step, stepAt, isRun, moves]

/-- A pool whose permits are accounted for is never stuck. -/
theorem PoolLawful.progress (choice : Choice) (answer : Answer) (room : 0 < policy.window)
    (some_workers : 0 < workers) (lawful : PoolLawful policy workers pool) :
    pool.Finished ∨ ∃ event later, event.ofRun ∧ pool.step policy event = some later := by
  by_cases finished : pool.Finished
  · exact .inl finished
  · right
    by_cases running : ∃ run ∈ pool.runs, ∃ slot ∈ run.slots, slot.phase.holdsPermit = true
    · rcases running with ⟨run, isRun, slot, isSlot, holds⟩
      rcases List.getElem?_of_mem isRun with ⟨index, found⟩
      exact Pool.step_of_run found (exists_step_of_running ⟨slot, isSlot, holds⟩)
    · have none_held : pool.held = 0 := by
        rw [Pool.held, List.sum_eq_zero_iff]
        simp only [not_exists, not_and, Bool.not_eq_true] at running
        intro held isHeld
        rcases List.mem_map.mp isHeld with ⟨run, isRun, rfl⟩
        rw [Run.held, List.countP_eq_zero]
        simpa using running run isRun
      have isFree : 0 < pool.permits := by
        have permits := lawful.permits
        omega
      simp only [Pool.Finished, not_forall] at finished
      rcases finished with ⟨run, isRun, left⟩
      rcases List.getElem?_of_mem isRun with ⟨index, found⟩
      exact Pool.step_of_run found (exists_step choice answer room left (.inl isFree))

end Progress

section Results

variable {Mode Job Choice Notice Result Answer Stop : Type*}
  {policy : Policy Mode Job Choice Notice Result Answer Stop}
  {run : Run Mode Job Notice Result Stop}

theorem Run.Finished.places (finished : run.Finished) :
    run.places = run.delivered.map Prod.fst := by
  simp [Run.places, finished.1, finished.2]

/-- Entries whose places are a permutation of these come from entries in their order. -/
theorem exists_perm_zip {α : Type*} {entries : List (ℕ × α)} {places : List ℕ}
    (permuted : (entries.map Prod.fst).Perm places) :
    ∃ results : List α, results.length = places.length ∧ entries.Perm (places.zip results) := by
  have sorts := congrFun (congrFun (List.eq_map_comp_perm Prod.fst) places) entries
  rcases sorts.mpr permuted.symm with ⟨sorted, keys, isPerm⟩
  have pairs : sorted = (sorted.map Prod.fst).zip (sorted.map Prod.snd) :=
    List.zip_of_prod rfl rfl
  refine ⟨sorted.map Prod.snd, ?_, ?_⟩
  · rw [keys, List.length_map, List.length_map]
  · rw [keys, ← pairs]
    exact isPerm.symm

/-- Every place is delivered once. -/
theorem Lawful.delivered_places (lawful : Lawful policy run) (finished : run.Finished)
    (going : run.stopped = none) :
    (run.delivered.map Prod.fst).Perm (List.range run.jobs.length) := by
  have known := lawful.nodup
  have all := lawful.all going
  have inside := lawful.inside
  rw [finished.places] at known all inside
  rw [List.perm_ext_iff_of_nodup known List.nodup_range]
  intro place
  rw [List.mem_range]
  exact ⟨inside place, all place⟩

/-- In an ordered mode the results are delivered in the order of the jobs. -/
theorem Lawful.delivered_eq (lawful : Lawful policy run) (finished : run.Finished)
    (going : run.stopped = none) (ordered : policy.ordered run.mode = true) :
    run.delivered = (List.range run.jobs.length).zip (run.delivered.map Prod.snd) := by
  have inOrder := lawful.inOrder ordered
  rw [finished.places] at inOrder
  have places : run.delivered.map Prod.fst = List.range run.jobs.length :=
    inOrder.eq_of_length (lawful.delivered_places finished going).length_eq
  rw [← places]
  exact List.zip_of_prod rfl rfl

/-- What is delivered when a run has finished is what its jobs did, whatever the order. -/
theorem Lawful.exists_results (lawful : Lawful policy run) (finished : run.Finished)
    (going : run.stopped = none) :
    ∃ results : List Result, results.length = run.jobs.length ∧
      run.delivered.Perm ((List.range run.jobs.length).zip results) ∧
      (policy.ordered run.mode = true →
        run.delivered = (List.range run.jobs.length).zip results) ∧
      ∀ place job, run.jobs[place]? = some job → ∃ choice result, results[place]? = some result ∧
        policy.behave choice job = (run.logAt place, result) := by
  have exists_results : ∃ results : List Result, results.length = run.jobs.length ∧
      run.delivered.Perm ((List.range run.jobs.length).zip results) ∧
      (policy.ordered run.mode = true →
        run.delivered = (List.range run.jobs.length).zip results) := by
    cases ordered : policy.ordered run.mode with
    | true =>
        have delivered := lawful.delivered_eq finished going ordered
        refine ⟨run.delivered.map Prod.snd, ?_, ?_, fun _ => delivered⟩
        · simpa using (lawful.delivered_places finished going).length_eq
        · rw [← delivered]
    | false =>
        rcases exists_perm_zip (lawful.delivered_places finished going)
          with ⟨results, length, isPerm⟩
        rw [List.length_range] at length
        exact ⟨results, length, isPerm, nofun⟩
  rcases exists_results with ⟨results, length, isPerm, inOrder⟩
  refine ⟨results, length, isPerm, inOrder, ?_⟩
  intro place job isJob
  have within := (List.getElem?_eq_some_iff.mp isJob).1
  have found : results[place]? = some (results.get ⟨place, length ▸ within⟩) :=
    List.getElem?_eq_getElem (length ▸ within)
  have isEntry : (place, results.get ⟨place, length ▸ within⟩) ∈
      (List.range run.jobs.length).zip results := by
    refine List.mem_iff_getElem?.mpr ⟨place, ?_⟩
    rw [List.getElem?_zip_eq_some]
    exact ⟨by simp [within], found⟩
  rcases lawful.delivered _ (isPerm.mem_iff.mpr isEntry) with ⟨job', choice, isJob', behaves⟩
  rw [isJob, Option.some.injEq] at isJob'
  subst isJob'
  exact ⟨choice, _, found, behaves⟩

/-- Each result is put at its place. -/
def placed {α : Type*} (length : ℕ) (entries : List (ℕ × α)) : List (Option α) :=
  entries.foldl (fun row entry => row.set entry.1 (some entry.2)) (List.replicate length none)

section Placed

variable {α : Type*} {entries : List (ℕ × α)} {row : List (Option α)} {place : ℕ} {value : α}

theorem foldl_set_of_not_mem (untouched : place ∉ entries.map Prod.fst) :
    (entries.foldl (fun row entry => row.set entry.1 (some entry.2)) row)[place]? =
      row[place]? := by
  induction entries generalizing row with
  | nil => rfl
  | cons entry entries ih =>
      rw [List.map_cons, List.mem_cons, not_or] at untouched
      rw [List.foldl_cons, ih untouched.2, List.getElem?_set_ne (Ne.symm untouched.1)]

theorem foldl_set_of_mem (once : (entries.map Prod.fst).Nodup)
    (isEntry : (place, value) ∈ entries) (inside : place < row.length) :
    (entries.foldl (fun row entry => row.set entry.1 (some entry.2)) row)[place]? =
      some (some value) := by
  induction entries generalizing row with
  | nil => cases isEntry
  | cons entry entries ih =>
      rw [List.map_cons, List.nodup_cons] at once
      rw [List.foldl_cons]
      rcases List.mem_cons.mp isEntry with rfl | later
      · rw [foldl_set_of_not_mem once.1, List.getElem?_set_self inside]
      · exact ih once.2 later (by rwa [List.length_set])

theorem length_foldl_set :
    (entries.foldl (fun row entry => row.set entry.1 (some entry.2)) row).length =
      row.length := by
  induction entries generalizing row with
  | nil => rfl
  | cons entry entries ih => rw [List.foldl_cons, ih, List.length_set]

/-- No place is left empty. -/
theorem placed_of_perm {results : List α}
    (isPerm : entries.Perm ((List.range results.length).zip results)) :
    placed results.length entries = results.map some := by
  have keys : ((List.range results.length).zip results).map Prod.fst =
      List.range results.length := List.map_fst_zip (by simp)
  have once : (entries.map Prod.fst).Nodup := by
    rw [(isPerm.map Prod.fst).nodup_iff, keys]
    exact List.nodup_range
  apply List.ext_getElem
  · rw [placed, length_foldl_set, List.length_replicate, List.length_map]
  · intro place _ inside
    rw [List.length_map] at inside
    have isEntry : (place, results[place]) ∈ entries := by
      rw [isPerm.mem_iff, List.mem_iff_getElem?]
      refine ⟨place, ?_⟩
      rw [List.getElem?_zip_eq_some]
      exact ⟨by simp [inside], List.getElem?_eq_getElem inside⟩
    have within : place < (List.replicate results.length (none : Option α)).length := by
      rwa [List.length_replicate]
    rw [List.getElem_map]
    exact (List.getElem?_eq_some_iff.mp (foldl_set_of_mem once isEntry within)).2

end Placed

end Results

end DispatchWindow
