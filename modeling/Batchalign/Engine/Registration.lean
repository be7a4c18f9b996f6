import Batchalign.Engine.Batcher
import Batchalign.Task

/-!
# Registration and shutdown of the engine

`BatchalignEngine::register`, `shutdown` and `engine_name` of
`batchalign-engine/src/engine.rs`. The engine keeps two tables over the tasks: the
routes, which say where a request is sent, and the names, from which runners stamp
provenance.

`register` overwrites the route of a task before it looks whether there was one, and
`shutdown` empties the routes alone. So the two tables agree exactly as long as no
registration fails and nothing is registered when the engine is shut down.
-/

namespace Batchalign.Engine

/-- The metadata `register` reads from a backend. -/
structure BackendImpl where
  name : String
  tasks : List Task
  batchPolicy : BatchPolicy

structure EngineConfig where
  maxConcurrentValues : ℕ := 8

def routeQueueCapacity (config : EngineConfig) : ℕ :=
  max config.maxConcurrentValues 1

/-- A `batcher_loop` with the capacity of the channel it receives from. -/
structure BatcherLoop where
  backend : BackendImpl
  capacity : ℕ

/-- The engine with the loops it has spawned. A sender is the number of the loop at the
other end of its channel. -/
structure BatchalignEngine where
  routes : Task → Option ℕ
  backendNames : Task → Option String
  config : EngineConfig
  loops : List BatcherLoop

namespace BatchalignEngine

def withConfig (config : EngineConfig) : BatchalignEngine where
  routes _ := none
  backendNames _ := none
  config := config
  loops := []

/-- The loop of `register` over the tasks, with both tables locked. -/
def insertTasks (tx : ℕ) (name : String) :
    List Task → BatchalignEngine → BatchalignEngine × Except String Unit
  | [], engine => (engine, .ok ())
  | task :: tasks, engine =>
      let inserted := { engine with routes := Function.update engine.routes task (some tx) }
      if (engine.routes task).isSome then
        (inserted, .error s!"two backends declared for {task.debug} (second: {name})")
      else
        insertTasks tx name tasks
          { inserted with backendNames := Function.update engine.backendNames task (some name) }

/-- A lock is poisoned only by a panic under it; nothing panics there. -/
def register (engine : BatchalignEngine) (backend : BackendImpl) :
    BatchalignEngine × Except String Unit :=
  let tx := engine.loops.length
  insertTasks tx backend.name backend.tasks
    { engine with loops := engine.loops ++ [⟨backend, routeQueueCapacity engine.config⟩] }

def serves (engine : BatchalignEngine) (task : Task) : Bool :=
  (engine.routes task).isSome

def shutdown (engine : BatchalignEngine) : BatchalignEngine :=
  { engine with routes := fun _ => none }

def engineName (engine : BatchalignEngine) (task : Task) : Option String :=
  engine.backendNames task

/-- The backend a request for a task is sent to. -/
def dispatchedTo (engine : BatchalignEngine) (task : Task) : Option BackendImpl :=
  (engine.routes task).bind fun tx => (engine.loops[tx]?).map BatcherLoop.backend

end BatchalignEngine

inductive EngineCall where
  | register (backend : BackendImpl)
  | shutdown

namespace BatchalignEngine

def call (engine : BatchalignEngine) : EngineCall → BatchalignEngine × Except String Unit
  | .register backend => engine.register backend
  | .shutdown => (engine.shutdown, .ok ())

/-- Every sender belongs to a loop. -/
def RoutesSpawned (engine : BatchalignEngine) : Prop :=
  ∀ task, ∀ tx ∈ engine.routes task, tx < engine.loops.length

def NamesAgree (engine : BatchalignEngine) : Prop :=
  ∀ task, engine.engineName task = (engine.dispatchedTo task).map BackendImpl.name

/-- A call that fails leaves the routing table and the names as they were. -/
def FailsUnchanged (engine : BatchalignEngine) (call : EngineCall) : Prop :=
  ∀ message, (engine.call call).2 = .error message →
    (engine.call call).1.routes = engine.routes ∧
      (engine.call call).1.backendNames = engine.backendNames

/-- No failing call of the sequence changes a table, and the tables agree before it, between
its calls and after it. -/
def RunsAtomically : BatchalignEngine → List EngineCall → Prop
  | engine, [] => engine.NamesAgree
  | engine, call :: calls =>
      engine.NamesAgree ∧ engine.FailsUnchanged call ∧ RunsAtomically (engine.call call).1 calls

/-- A backend that declares no task twice and none that is served, or a shutdown of an engine
that serves no task. -/
def CallClean (engine : BatchalignEngine) : EngineCall → Prop
  | .register backend =>
      backend.tasks.Nodup ∧ ∀ task ∈ backend.tasks, engine.serves task = false
  | .shutdown => ∀ task, engine.serves task = false

def RunsClean : BatchalignEngine → List EngineCall → Prop
  | _, [] => True
  | engine, call :: calls =>
      engine.CallClean call ∧ RunsClean (engine.call call).1 calls

section Insertion

variable {tx : ℕ} {name : String} {tasks : List Task} {engine : BatchalignEngine}

theorem serves_eq_false {task : Task} : engine.serves task = false ↔ engine.routes task = none := by
  simp [serves]

@[simp]
theorem insertTasks_loops : (insertTasks tx name tasks engine).1.loops = engine.loops := by
  induction tasks generalizing engine with
  | nil => rfl
  | cons task tasks ih =>
      simp only [insertTasks]
      split
      · rfl
      · rw [ih]

@[simp]
theorem insertTasks_config : (insertTasks tx name tasks engine).1.config = engine.config := by
  induction tasks generalizing engine with
  | nil => rfl
  | cons task tasks ih =>
      simp only [insertTasks]
      split
      · rfl
      · rw [ih]

/-- All tasks free and different: every one is routed and named. -/
theorem insertTasks_free (nodup : tasks.Nodup)
    (free : ∀ task ∈ tasks, engine.routes task = none) :
    insertTasks tx name tasks engine =
      ({ engine with
        routes := fun task => if task ∈ tasks then some tx else engine.routes task
        backendNames := fun task =>
          if task ∈ tasks then some name else engine.backendNames task }, .ok ()) := by
  induction tasks generalizing engine with
  | nil => simp [insertTasks]
  | cons task tasks ih =>
      have fresh : task ∉ tasks := (List.nodup_cons.mp nodup).1
      have unrouted : engine.routes task = none := free task List.mem_cons_self
      have later : ∀ other ∈ tasks,
          Function.update engine.routes task (some tx) other = none := by
        intro other member
        have different : other ≠ task := fun same => fresh (same ▸ member)
        rw [Function.update_of_ne different]
        exact free other (List.mem_cons_of_mem _ member)
      simp only [insertTasks, unrouted, Option.isSome_none, Bool.false_eq_true, if_false]
      rw [ih (List.nodup_cons.mp nodup).2 later]
      congr 2
      · funext other
        by_cases same : other = task <;> simp [same, fresh]
      · funext other
        by_cases same : other = task <;> simp [same, fresh]

/-- A route of a task that was there before stays, or is the one overwritten when the loop
gives up. -/
theorem insertTasks_fails {before : Task → Option ℕ}
    (unsent : ∀ task, before task ≠ some tx)
    (grown : ∀ task, (before task).isSome → engine.routes task = before task)
    (taken : ¬ (tasks.Nodup ∧ ∀ task ∈ tasks, engine.routes task = none)) :
    (∃ message, (insertTasks tx name tasks engine).2 = .error message) ∧
      (insertTasks tx name tasks engine).1.routes ≠ before := by
  induction tasks generalizing engine with
  | nil => simp at taken
  | cons task tasks ih =>
      cases routed : engine.routes task with
      | some held =>
          simp only [insertTasks, routed, Option.isSome_some, if_true]
          refine ⟨⟨_, rfl⟩, fun same => unsent task ?_⟩
          rw [← same, Function.update_self]
      | none =>
          simp only [insertTasks, routed, Option.isSome_none, Bool.false_eq_true, if_false]
          have unheld : before task = none := by
            by_contra held
            have kept := grown task (Option.isSome_iff_ne_none.mpr held)
            exact held (kept.symm.trans routed)
          refine ih ?_ ?_
          · intro other held
            have different : other ≠ task := by
              rintro rfl
              rw [unheld] at held
              cases held
            exact (Function.update_of_ne different _ _).trans (grown other held)
          · rintro ⟨nodup, free⟩
            apply taken
            have fresh : task ∉ tasks := by
              intro member
              have self := (Function.update_self task (some tx) engine.routes).symm.trans
                (free task member)
              cases self
            refine ⟨List.nodup_cons.mpr ⟨fresh, nodup⟩, ?_⟩
            intro other member
            rcases List.mem_cons.mp member with rfl | member
            · exact routed
            · have different : other ≠ task := fun same => fresh (same ▸ member)
              exact (Function.update_of_ne different _ _).symm.trans (free other member)

end Insertion

section Calls

variable {engine : BatchalignEngine} {backend : BackendImpl}

theorem register_clean (clean : engine.CallClean (.register backend)) :
    engine.register backend =
      ({ engine with
        routes := fun task =>
          if task ∈ backend.tasks then some engine.loops.length else engine.routes task
        backendNames := fun task =>
          if task ∈ backend.tasks then some backend.name else engine.backendNames task
        loops := engine.loops ++ [⟨backend, routeQueueCapacity engine.config⟩] }, .ok ()) := by
  rw [register, insertTasks_free clean.1]
  intro task member
  exact serves_eq_false.mp (clean.2 task member)

theorem register_fails (spawned : engine.RoutesSpawned)
    (unclean : ¬ engine.CallClean (.register backend)) :
    (∃ message, (engine.register backend).2 = .error message) ∧
      (engine.register backend).1.routes ≠ engine.routes := by
  apply insertTasks_fails
  · intro task sent
    have inside := spawned task _ sent
    omega
  · intros
    rfl
  · intro clean
    apply unclean
    refine ⟨clean.1, fun task member => serves_eq_false.mpr (clean.2 task member)⟩

theorem register_failsUnchanged_iff (spawned : engine.RoutesSpawned) :
    engine.FailsUnchanged (.register backend) ↔ engine.CallClean (.register backend) := by
  constructor
  · intro unchanged
    by_contra unclean
    rcases register_fails spawned unclean with ⟨⟨message, fails⟩, changed⟩
    exact changed (unchanged message fails).1
  · intro clean message fails
    rw [call, register_clean clean] at fails
    cases fails

theorem dispatchedTo_shutdown (task : Task) : engine.shutdown.dispatchedTo task = none := rfl

/-- The names survive a shutdown; the routes do not. -/
theorem shutdown_namesAgree_iff (spawned : engine.RoutesSpawned) (agree : engine.NamesAgree) :
    engine.shutdown.NamesAgree ↔ engine.CallClean .shutdown := by
  have named (task : Task) : engine.engineName task = none ↔ engine.serves task = false := by
    rw [agree task, serves_eq_false, Option.map_eq_none_iff, dispatchedTo]
    cases routed : engine.routes task with
    | none => simp
    | some tx =>
        have inside := spawned task tx routed
        simp [List.getElem?_eq_getElem inside]
  constructor
  · intro after task
    exact (named task).mp (after task)
  · intro clean task
    exact (named task).mpr (clean task)

theorem register_spawned (spawned : engine.RoutesSpawned)
    (clean : engine.CallClean (.register backend)) :
    (engine.register backend).1.RoutesSpawned := by
  rw [register_clean clean]
  intro task tx sent
  simp only [List.length_append, List.length_cons, List.length_nil] at sent ⊢
  split at sent
  · cases sent
    omega
  · have inside := spawned task tx sent
    omega

theorem register_namesAgree (spawned : engine.RoutesSpawned) (agree : engine.NamesAgree)
    (clean : engine.CallClean (.register backend)) :
    (engine.register backend).1.NamesAgree := by
  rw [register_clean clean]
  intro task
  simp only [engineName, dispatchedTo]
  by_cases declared : task ∈ backend.tasks
  · simp [declared]
  · simp only [declared, if_false]
    have before := agree task
    rw [engineName, dispatchedTo] at before
    rw [before]
    cases routed : engine.routes task with
    | none => rfl
    | some tx =>
        have inside := spawned task tx routed
        simp [List.getElem?_append_left inside]

theorem call_spawned (spawned : engine.RoutesSpawned) {call : EngineCall}
    (clean : engine.CallClean call) : (engine.call call).1.RoutesSpawned := by
  cases call with
  | register backend => exact register_spawned spawned clean
  | shutdown =>
      intro task tx sent
      cases sent

/-- One call, on an engine whose tables agree. -/
theorem call_atomic_iff (spawned : engine.RoutesSpawned) (agree : engine.NamesAgree)
    (call : EngineCall) :
    engine.FailsUnchanged call ∧ (engine.call call).1.NamesAgree ↔ engine.CallClean call := by
  cases call with
  | register backend =>
      rw [register_failsUnchanged_iff spawned]
      constructor
      · exact And.left
      · intro clean
        exact ⟨clean, register_namesAgree spawned agree clean⟩
  | shutdown =>
      have succeeds : engine.FailsUnchanged .shutdown := by
        intro message fails
        cases fails
      constructor
      · intro atomic
        exact (shutdown_namesAgree_iff spawned agree).mp atomic.2
      · intro clean
        exact ⟨succeeds, (shutdown_namesAgree_iff spawned agree).mpr clean⟩

end Calls

theorem RunsAtomically.namesAgree {engine : BatchalignEngine} {calls : List EngineCall}
    (atomic : engine.RunsAtomically calls) : engine.NamesAgree := by
  cases calls with
  | nil => exact atomic
  | cons call calls => exact atomic.1

theorem runsAtomically_iff {engine : BatchalignEngine} {calls : List EngineCall}
    (spawned : engine.RoutesSpawned) (agree : engine.NamesAgree) :
    engine.RunsAtomically calls ↔ engine.RunsClean calls := by
  induction calls generalizing engine with
  | nil => simp [RunsAtomically, RunsClean, agree]
  | cons call calls ih =>
      simp only [RunsAtomically, RunsClean, agree, true_and]
      constructor
      · rintro ⟨unchanged, rest⟩
        have clean := (call_atomic_iff spawned agree call).mp ⟨unchanged, rest.namesAgree⟩
        exact ⟨clean, (ih (call_spawned spawned clean) rest.namesAgree).mp rest⟩
      · rintro ⟨clean, rest⟩
        have atomic := (call_atomic_iff spawned agree call).mpr clean
        exact ⟨atomic.1, (ih (call_spawned spawned clean) atomic.2).mpr rest⟩

/-- A fresh engine runs a sequence of calls atomically exactly when each registered backend
declares only tasks that are not served yet, each once, and a shutdown finds no task served. -/
theorem withConfig_runsAtomically_iff (config : EngineConfig) (calls : List EngineCall) :
    (withConfig config).RunsAtomically calls ↔ (withConfig config).RunsClean calls := by
  apply runsAtomically_iff
  · intro task tx sent
    cases sent
  · intro task
    rfl

/-- The second backend fails at its second task: its first is routed and named, and the
contested one is routed to it under the name of the first backend. -/
theorem register_not_atomic :
    ¬ (withConfig {}).RunsAtomically
      [.register ⟨"whisper", [.asr], ⟨1⟩⟩, .register ⟨"rev", [.speaker, .asr], ⟨1⟩⟩] := by
  intro atomic
  have unchanged := (atomic.2.2.2.1 _ rfl).1
  have unrouted : some 1 = none := congrFun unchanged .speaker
  cases unrouted

end BatchalignEngine

end Batchalign.Engine
