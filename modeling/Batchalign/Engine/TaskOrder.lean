import Batchalign.Library.GreedyOrder
import Batchalign.Task

/-!
# The order of the stages

`topo_sort_stable` counts the open requirements of every task and releases a task when
its count reaches zero. The released tasks are exactly the ready ones, so the result is the
greedy order by declaration rank, whichever way the hash maps are walked.
-/

namespace Batchalign.Engine

open GreedyOrder

section Definitions

/-- The order in which a hash set, or the keys of a hash map, is walked. -/
structure IterationOrder (keys : Finset Task) where
  tasks : List Task
  nodup : tasks.Nodup
  mem_iff : ∀ task, task ∈ tasks ↔ task ∈ keys

def expandWithRequires (declared : List Task) : Finset Task :=
  declared.toFinset

/-- The set walked in the order of the declaration. -/
def IterationOrder.ofDeclared (declared : List Task) :
    IterationOrder (expandWithRequires declared) where
  tasks := declared.dedup
  nodup := declared.nodup_dedup
  mem_iff := by simp [expandWithRequires]

/-- The first position in the declaration. Tasks that are not declared come after. -/
def rankOf (declaredOrder : List Task) (task : Task) : ℕ :=
  (declaredOrder.idxOf? task).getD (declaredOrder.length + task.ctorIdx)

/-- The open requirements of each task, and the tasks that wait for it. -/
structure SortMaps where
  indegree : Task → ℕ
  edges : Task → List Task

def addEdge (task : Task) (maps : SortMaps) (requirement : Task) : SortMaps where
  indegree := Function.update maps.indegree task (maps.indegree task + 1)
  edges := Function.update maps.edges requirement (maps.edges requirement ++ [task])

def addRequirements (taskSet : Finset Task) (maps : SortMaps) (task : Task) : SortMaps :=
  (task.requires.filter (· ∈ taskSet)).foldl (addEdge task) maps

def buildMaps (taskSet : Finset Task) (nodes : List Task) : SortMaps :=
  nodes.foldl (addRequirements taskSet) ⟨fun _ => 0, fun _ => []⟩

structure SortState extends SortMaps where
  ready : List Task
  out : List Task

/-- One requirement of the task is done. -/
def release (counts : (Task → ℕ) × List Task) (task : Task) : (Task → ℕ) × List Task :=
  let indegree := Function.update counts.1 task (counts.1 task - 1)
  (indegree, if indegree task = 0 then counts.2 ++ [task] else counts.2)

/-- Takes the first task out of the sorted ready list. -/
def pickTask (state : SortState) (pick : Task) (rest : List Task) : SortState :=
  let counts := (state.edges pick).foldl release (state.indegree, rest)
  { indegree := counts.1
    edges := Function.update state.edges pick []
    ready := counts.2
    out := state.out ++ [pick] }

/-- The main loop. Every round puts out a task, so one round for each task is enough. -/
def sortLoop (rank : Task → ℕ) : ℕ → SortState → SortState
  | 0, state => state
  | rounds + 1, state =>
      match state.ready.insertionSort (rank · ≤ rank ·) with
      | [] => state
      | pick :: rest => sortLoop rank rounds (pickTask state pick rest)

/-- The walk of `setOrder` fills the maps, that of `mapOrder` finds the first ready tasks. -/
def topoSortStable (declaredOrder : List Task) (taskSet : Finset Task)
    (setOrder mapOrder : IterationOrder taskSet) : List Task :=
  let maps := buildMaps taskSet setOrder.tasks
  (sortLoop (rankOf declaredOrder) taskSet.card
    { toSortMaps := maps
      ready := mapOrder.tasks.filter fun task => maps.indegree task = 0
      out := [] }).out

end Definitions

section Maps

/-- The listed requirements of a listed task that are not finished yet. -/
def waiting (taskSet : Finset Task) (finished : List Task) (task : Task) : List Task :=
  if task ∈ taskSet then task.requires.filter fun requirement =>
    requirement ∈ taskSet ∧ requirement ∉ finished
  else []

theorem foldl_addEdge_indegree (task : Task) (requirements : List Task) (maps : SortMaps)
    (other : Task) :
    (requirements.foldl (addEdge task) maps).indegree other =
      maps.indegree other + if other = task then requirements.length else 0 := by
  induction requirements generalizing maps with
  | nil => simp
  | cons requirement requirements ih =>
      rw [List.foldl_cons, ih]
      by_cases same : other = task
      · subst same
        simp only [addEdge, Function.update_self, if_true, List.length_cons]
        omega
      · simp [addEdge, same]

theorem foldl_addEdge_edges (task : Task) (requirements : List Task) (maps : SortMaps)
    (requirement other : Task) :
    ((requirements.foldl (addEdge task) maps).edges requirement).count other =
      (maps.edges requirement).count other +
        if other = task then requirements.count requirement else 0 := by
  induction requirements generalizing maps with
  | nil => simp
  | cons first requirements ih =>
      rw [List.foldl_cons, ih]
      by_cases sameTask : other = task <;> by_cases sameFirst : requirement = first
      · subst sameTask sameFirst
        simp only [addEdge, Function.update_self, List.count_append, if_true, List.count_cons_self,
          List.count_nil]
        omega
      · simp [addEdge, sameFirst, Ne.symm sameFirst, sameTask]
      · subst sameFirst
        simp [addEdge, sameTask, Ne.symm sameTask]
      · simp [addEdge, sameFirst, sameTask]

/-- The maps count what each task waits for. -/
theorem buildMaps_spec (taskSet : Finset Task) {nodes : List Task} (nodup : nodes.Nodup)
    (inside : ∀ task ∈ nodes, task ∈ taskSet) :
    (∀ task, (buildMaps taskSet nodes).indegree task =
      if task ∈ nodes then (waiting taskSet [] task).length else 0) ∧
    ∀ requirement task, ((buildMaps taskSet nodes).edges requirement).count task =
      if task ∈ nodes then (waiting taskSet [] task).count requirement else 0 := by
  induction nodes using List.reverseRecOn with
  | nil => simp [buildMaps]
  | append_singleton nodes last ih =>
      have nodups := List.nodup_append.mp nodup
      have fresh : last ∉ nodes := by
        intro again
        exact nodups.2.2 last again last (List.mem_singleton_self last) rfl
      have built : buildMaps taskSet (nodes ++ [last]) =
          (waiting taskSet [] last).foldl (addEdge last) (buildMaps taskSet nodes) := by
        have listed := inside last (by simp)
        simp [buildMaps, addRequirements, waiting, listed]
      rcases ih nodups.1 (fun task member => inside task (List.mem_append_left _ member)) with
        ⟨indegrees, counts⟩
      rw [built]
      constructor
      · intro task
        rw [foldl_addEdge_indegree, indegrees]
        by_cases same : task = last
        · subst same
          simp [fresh]
        · simp [same]
      · intro requirement task
        rw [foldl_addEdge_edges, counts]
        by_cases same : task = last
        · subst same
          simp [fresh]
        · simp [same]

end Maps

section Release

theorem release_fst (counts : (Task → ℕ) × List Task) (first task : Task) :
    (release counts first).1 task =
      if task = first then counts.1 task - 1 else counts.1 task := by
  by_cases same : task = first
  · subst same
    simp [release]
  · simp [release, same]

/-- Every release takes one away. -/
theorem foldl_release_fst (successors : List Task) (counts : (Task → ℕ) × List Task)
    (task : Task) :
    (successors.foldl release counts).1 task = counts.1 task - successors.count task := by
  induction successors generalizing counts with
  | nil => simp
  | cons first successors ih =>
      rw [List.foldl_cons, ih, release_fst]
      by_cases same : task = first
      · subst same
        rw [if_pos rfl, List.count_cons_self]
        omega
      · rw [if_neg same, List.count_cons_of_ne (Ne.symm same)]

/-- A count that is taken away whole is taken away by the first release or by the others. -/
theorem exhausted_cons_iff {first : Task} {successors : List Task} {indegree : Task → ℕ}
    {ready : List Task} (enough : (first :: successors).count first ≤ indegree first)
    (task : Task) :
    (task ∈ first :: successors ∧ indegree task = (first :: successors).count task) ↔
      (task = first ∧ first ∉ successors ∧ indegree first = 1) ∨
      (task ∈ successors ∧ (release (indegree, ready) first).1 task = successors.count task) := by
  rw [List.mem_cons, release_fst]
  by_cases same : task = first
  · subst same
    rw [List.count_cons_self] at enough ⊢
    by_cases again : task ∈ successors
    · have positive := List.count_pos_iff.mpr again
      simp only [again, not_true, false_and, and_false, false_or, or_true, true_and, if_true]
      omega
    · simp [again, List.count_eq_zero_of_not_mem again]
  · simp [same, List.count_cons_of_ne (Ne.symm same)]

/-- The tasks released are those whose whole count is taken away. -/
theorem foldl_release_snd {successors : List Task} {indegree : Task → ℕ} {ready : List Task}
    (enough : ∀ task, successors.count task ≤ indegree task) :
    ∃ released, (successors.foldl release (indegree, ready)).2 = ready ++ released ∧
      released.Nodup ∧
      ∀ task, task ∈ released ↔ task ∈ successors ∧ indegree task = successors.count task := by
  induction successors generalizing indegree ready with
  | nil => exact ⟨[], by simp, List.nodup_nil, by simp⟩
  | cons first successors ih =>
      have enough' : ∀ task, successors.count task ≤ (release (indegree, ready) first).1 task := by
        intro task
        have bound := enough task
        rw [release_fst]
        by_cases same : task = first
        · subst same
          rw [List.count_cons_self] at bound
          simp only [if_true]
          omega
        · rwa [if_neg same, ← List.count_cons_of_ne (Ne.symm same)]
      rcases @ih _ (release (indegree, ready) first).2 enough' with
        ⟨released, appended, nodup, mem_iff⟩
      have released_iff := @exhausted_cons_iff first successors indegree ready (enough first)
      have enoughFirst := enough first
      rw [List.count_cons_self] at enoughFirst
      by_cases last : indegree first = 1
      · have gone : first ∉ successors := by
          rw [← List.count_pos_iff]
          omega
        refine ⟨first :: released, ?_, ?_, ?_⟩
        · refine appended.trans ?_
          simp [release, last]
        · refine List.nodup_cons.mpr ⟨?_, nodup⟩
          intro again
          exact gone ((mem_iff first).mp again).1
        · intro task
          rw [released_iff, ← mem_iff, List.mem_cons]
          simp [gone, last]
      · refine ⟨released, ?_, nodup, ?_⟩
        · refine appended.trans ?_
          have positive : ¬ indegree first - 1 = 0 := by omega
          simp [release, positive]
        · intro task
          rw [released_iff, ← mem_iff]
          simp [last]

end Release

section Loop

variable {taskSet : Finset Task} {state : SortState}

theorem waiting_eq_nil_iff {finished : List Task} {task : Task} (listed : task ∈ taskSet) :
    waiting taskSet finished task = [] ↔
      ∀ requirement ∈ task.requires, requirement ∈ taskSet → requirement ∈ finished := by
  simp [waiting, listed, List.filter_eq_nil_iff]

theorem waiting_listed {finished : List Task} {task requirement : Task}
    (member : requirement ∈ waiting taskSet finished task) : task ∈ taskSet := by
  by_contra unlisted
  simp [waiting, unlisted] at member

theorem length_filter_ne (pick : Task) (tasks : List Task) :
    tasks.count pick + (tasks.filter (· ≠ pick)).length = tasks.length := by
  have split := @List.length_eq_countP_add_countP _ (· == pick) tasks
  rw [split, ← List.countP_eq_length_filter, List.count]
  simp

/-- Finishing a task takes it off every list. -/
theorem waiting_append (finished : List Task) (pick task : Task) :
    waiting taskSet (finished ++ [pick]) task =
      (waiting taskSet finished task).filter (· ≠ pick) := by
  by_cases listed : task ∈ taskSet
  · simp only [waiting, listed, if_true, List.filter_filter]
    apply List.filter_congr
    intro requirement _
    rw [Bool.eq_iff_iff]
    simp only [List.mem_append, List.mem_singleton, not_or, Bool.and_eq_true, decide_eq_true_eq]
    tauto
  · simp [waiting, listed]

/-- What holds at the head of the loop: the maps count the open requirements, and the ready
list holds the tasks that have none. -/
structure Sorting (taskSet : Finset Task) (state : SortState) : Prop where
  indegree : ∀ task, state.indegree task = (waiting taskSet state.out task).length
  edges : ∀ requirement task,
    (state.edges requirement).count task = (waiting taskSet state.out task).count requirement
  nodup : state.ready.Nodup
  ready_iff : ∀ task, task ∈ state.ready ↔
    task ∈ taskSet ∧ task ∉ state.out ∧ waiting taskSet state.out task = []
  closed : ∀ task ∈ state.out, waiting taskSet state.out task = []

theorem Sorting.isReady_iff (sorting : Sorting taskSet state) (task : Task) :
    Ready Task.requires taskSet state.out.toFinset task ↔ task ∈ state.ready := by
  rw [sorting.ready_iff]
  constructor
  · rintro ⟨listed, unfinished, met⟩
    simp only [List.mem_toFinset] at unfinished met
    exact ⟨listed, unfinished, (waiting_eq_nil_iff listed).mpr met⟩
  · rintro ⟨listed, unfinished, nothing⟩
    refine ⟨listed, ?_, ?_⟩
    · simpa using unfinished
    · simpa using (waiting_eq_nil_iff listed).mp nothing

theorem waiting_append_of_nil {finished : List Task} {task : Task} (pick : Task)
    (nothing : waiting taskSet finished task = []) :
    waiting taskSet (finished ++ [pick]) task = [] := by
  rw [waiting_append, nothing]
  rfl

/-- The picked task was all that a released one waited for. -/
theorem Sorting.exhausted_iff (sorting : Sorting taskSet state) (pick task : Task) :
    (task ∈ state.edges pick ∧ state.indegree task = (state.edges pick).count task) ↔
      waiting taskSet state.out task ≠ [] ∧ waiting taskSet (state.out ++ [pick]) task = [] := by
  rw [sorting.indegree, sorting.edges, ← List.count_pos_iff, sorting.edges,
    waiting_append, List.filter_eq_nil_iff, eq_comm, List.count_eq_length]
  constructor
  · rintro ⟨positive, all⟩
    refine ⟨List.ne_nil_of_mem (List.count_pos_iff.mp positive), ?_⟩
    intro requirement member
    have isPick := all requirement member
    rw [← isPick]
    simp
  · rintro ⟨nonempty, all⟩
    have all' : ∀ requirement ∈ waiting taskSet state.out task, pick = requirement := by
      intro requirement member
      have isPick := all requirement member
      rw [decide_eq_true_eq, not_not] at isPick
      exact isPick.symm
    refine ⟨?_, all'⟩
    rcases List.exists_mem_of_ne_nil _ nonempty with ⟨requirement, member⟩
    rw [List.count_pos_iff, all' requirement member]
    exact member

/-- The ready list keeps the others and gets the released tasks. -/
theorem Sorting.pickTask_ready (sorting : Sorting taskSet state) (pick : Task)
    (rest : List Task) :
    ∃ released, (Engine.pickTask state pick rest).ready = rest ++ released ∧ released.Nodup ∧
      ∀ task, task ∈ released ↔
        waiting taskSet state.out task ≠ [] ∧
          waiting taskSet (state.out ++ [pick]) task = [] := by
  have enough : ∀ task, (state.edges pick).count task ≤ state.indegree task := by
    intro task
    rw [sorting.edges, sorting.indegree]
    exact List.count_le_length
  rcases @foldl_release_snd _ _ rest enough with ⟨released, appended, nodup, mem_iff⟩
  refine ⟨released, appended, nodup, ?_⟩
  intro task
  rw [mem_iff, sorting.exhausted_iff]

theorem Sorting.pickTask_indegree (sorting : Sorting taskSet state) (pick : Task)
    (rest : List Task) (task : Task) :
    (Engine.pickTask state pick rest).indegree task =
      (waiting taskSet (state.out ++ [pick]) task).length := by
  simp only [Engine.pickTask, foldl_release_fst]
  rw [sorting.indegree, sorting.edges, waiting_append,
    ← length_filter_ne pick (waiting taskSet state.out task)]
  exact Nat.add_sub_cancel_left _ _

theorem Sorting.pickTask_edges (sorting : Sorting taskSet state) (pick : Task)
    (rest : List Task) (requirement task : Task) :
    ((Engine.pickTask state pick rest).edges requirement).count task =
      (waiting taskSet (state.out ++ [pick]) task).count requirement := by
  simp only [Engine.pickTask]
  rw [waiting_append]
  by_cases same : requirement = pick
  · subst same
    rw [Function.update_self, List.count_nil, eq_comm, List.count_eq_zero]
    simp
  · rw [Function.update_of_ne same, sorting.edges, List.count_filter]
    simpa using same

theorem Sorting.pickTask {pick : Task} {rest : List Task} (sorting : Sorting taskSet state)
    (sorted : (pick :: rest).Perm state.ready) :
    Sorting taskSet (pickTask state pick rest) := by
  have picked := (sorting.ready_iff pick).mp (sorted.subset List.mem_cons_self)
  have nodup := List.nodup_cons.mp (sorted.nodup_iff.mpr sorting.nodup)
  have restReady : ∀ task ∈ rest, task ∈ taskSet ∧ task ∉ state.out ∧
      waiting taskSet state.out task = [] := by
    intro task isRest
    exact (sorting.ready_iff task).mp (sorted.subset (List.mem_cons_of_mem _ isRest))
  have closed : ∀ task ∈ state.out ++ [pick], waiting taskSet state.out task = [] := by
    intro task finished
    rcases List.mem_append.mp finished with earlier | isPick
    · exact sorting.closed task earlier
    · rw [List.mem_singleton.mp isPick]
      exact picked.2.2
  rcases sorting.pickTask_ready pick rest with ⟨released, appended, releasedNodup, mem_iff⟩
  refine ⟨sorting.pickTask_indegree pick rest, sorting.pickTask_edges pick rest, ?_, ?_, ?_⟩
  · rw [appended]
    refine List.nodup_append.mpr ⟨nodup.2, releasedNodup, ?_⟩
    rintro task isRest _ isReleased rfl
    exact ((mem_iff task).mp isReleased).1 (restReady task isRest).2.2
  · intro task
    change task ∈ (Engine.pickTask state pick rest).ready ↔
      task ∈ taskSet ∧ task ∉ state.out ++ [pick] ∧ waiting taskSet (state.out ++ [pick]) task = []
    rw [appended, List.mem_append]
    constructor
    · rintro (isRest | isReleased)
      · rcases restReady task isRest with ⟨listed, unfinished, nothing⟩
        refine ⟨listed, ?_, waiting_append_of_nil pick nothing⟩
        rw [List.mem_append, List.mem_singleton]
        rintro (earlier | rfl)
        · exact unfinished earlier
        · exact nodup.1 isRest
      · rcases (mem_iff task).mp isReleased with ⟨waited, nothing⟩
        rcases List.exists_mem_of_ne_nil _ waited with ⟨requirement, member⟩
        exact ⟨waiting_listed member, fun finished => waited (closed task finished), nothing⟩
    · rintro ⟨listed, unfinished, nothing⟩
      rw [List.mem_append, List.mem_singleton, not_or] at unfinished
      by_cases before : waiting taskSet state.out task = []
      · have wasReady := (sorting.ready_iff task).mpr ⟨listed, unfinished.1, before⟩
        exact Or.inl (List.mem_of_ne_of_mem unfinished.2 (sorted.symm.subset wasReady))
      · exact Or.inr ((mem_iff task).mpr ⟨before, nothing⟩)
  · intro task finished
    exact waiting_append_of_nil pick (closed task finished)

theorem sortLoop_greedy (rank : Task → ℕ) {rounds : ℕ} (sorting : Sorting taskSet state)
    (enough : (taskSet \ state.out.toFinset).card ≤ rounds) :
    ∃ order, (sortLoop rank rounds state).out = state.out ++ order ∧
      Greedy Task.requires rank taskSet state.out.toFinset order := by
  induction rounds generalizing state with
  | zero =>
      refine ⟨[], by simp [sortLoop], .done ?_⟩
      intro task ready
      have none_left := Finset.card_eq_zero.mp (Nat.le_zero.mp enough)
      rw [Finset.sdiff_eq_empty_iff_subset] at none_left
      exact ready.unfinished (none_left ready.listed)
  | succ rounds ih =>
      have sorted := List.perm_insertionSort (rank · ≤ rank ·) state.ready
      have ordered : (state.ready.insertionSort (rank · ≤ rank ·)).Pairwise
          (rank · ≤ rank ·) :=
        List.pairwise_insertionSort _ _
      simp only [sortLoop]
      generalize state.ready.insertionSort (rank · ≤ rank ·) = tasks at sorted ordered
      cases tasks with
      | nil =>
          refine ⟨[], by simp, .done ?_⟩
          intro task ready
          have member := sorted.symm.subset ((sorting.isReady_iff task).mp ready)
          simp at member
      | cons pick rest =>
          have ready := (sorting.isReady_iff pick).mpr (sorted.subset List.mem_cons_self)
          have out : (Engine.pickTask state pick rest).out.toFinset =
              insert pick state.out.toFinset := by
            ext task
            simp [Engine.pickTask]
          have fewer :
              (taskSet \ (Engine.pickTask state pick rest).out.toFinset).card ≤ rounds := by
            rw [out, Finset.sdiff_insert, Finset.card_erase_of_mem]
            · omega
            · exact Finset.mem_sdiff.mpr ⟨ready.listed, ready.unfinished⟩
          rcases ih (sorting.pickTask sorted) fewer with ⟨order, outs, greedy⟩
          refine ⟨pick :: order, ?_, .pick ready ?_ ?_⟩
          · rw [outs]
            simp [Engine.pickTask]
          · intro other isReady
            have member := sorted.symm.subset ((sorting.isReady_iff other).mp isReady)
            rcases List.mem_cons.mp member with rfl | later
            · exact le_rfl
            · exact (List.pairwise_cons.mp ordered).1 other later
          · rwa [← out]

/-- The result is the greedy order of the declared tasks by declaration rank. -/
theorem topoSortStable_greedy (declaredOrder : List Task)
    (setOrder mapOrder : IterationOrder taskSet) :
    Greedy Task.requires (rankOf declaredOrder) taskSet ∅
      (topoSortStable declaredOrder taskSet setOrder mapOrder) := by
  rcases buildMaps_spec taskSet setOrder.nodup (fun task => (setOrder.mem_iff task).mp) with
    ⟨indegrees, counts⟩
  have unlisted : ∀ task, task ∉ taskSet → waiting taskSet [] task = [] := by
    intro task outside
    simp [waiting, outside]
  have indegree : ∀ task, (buildMaps taskSet setOrder.tasks).indegree task =
      (waiting taskSet [] task).length := by
    intro task
    rw [indegrees]
    simp only [setOrder.mem_iff]
    split
    · rfl
    · rename_i outside
      rw [unlisted task outside, List.length_nil]
  have sorting : Sorting taskSet
      { toSortMaps := buildMaps taskSet setOrder.tasks
        ready := mapOrder.tasks.filter fun task =>
          (buildMaps taskSet setOrder.tasks).indegree task = 0
        out := [] } := by
    refine ⟨indegree, ?_, mapOrder.nodup.filter _, ?_, by simp⟩
    · intro requirement task
      refine (counts requirement task).trans ?_
      simp only [setOrder.mem_iff]
      split
      · rfl
      · rename_i outside
        rw [unlisted task outside, List.count_nil]
    · intro task
      simp [mapOrder.mem_iff, indegree]
  rcases @sortLoop_greedy _ _ (rankOf declaredOrder) taskSet.card sorting (by simp) with
    ⟨order, out, greedy⟩
  rw [topoSortStable, out]
  exact greedy

end Loop

section Order

theorem rankOf_of_mem {declaredOrder : List Task} {task : Task} (declared : task ∈ declaredOrder) :
    rankOf declaredOrder task = declaredOrder.idxOf task := by
  rw [rankOf, List.idxOf_eq_getD_idxOf?]
  cases found : declaredOrder.idxOf? task with
  | none => exact absurd declared (List.idxOf?_eq_none_iff.mp found)
  | some position => rfl

theorem rankOf_injective (declared : List Task) :
    Set.InjOn (rankOf declared) (expandWithRequires declared) := by
  intro task isDeclared other isDeclared' same
  simp only [expandWithRequires, List.coe_toFinset, Set.mem_ofPred_eq] at isDeclared isDeclared'
  rw [rankOf_of_mem isDeclared, rankOf_of_mem isDeclared'] at same
  exact (List.idxOf_inj isDeclared).mp same

/-- A task and a task it requires, both declared. -/
def DeclaredRequires (declared : List Task) (task requirement : Task) : Prop :=
  task ∈ declared ∧ requirement ∈ declared ∧ requirement ∈ task.requires

/-- The order is a permutation of the declared tasks. A task comes after every task it reaches
through requirements that are all declared, and the walks of the hash maps do not matter. -/
theorem topoSortStable_ordered (declared : List Task)
    (setOrder mapOrder : IterationOrder (expandWithRequires declared)) :
    let order := topoSortStable declared (expandWithRequires declared) setOrder mapOrder
    order.Perm declared.dedup ∧
      (∀ task requirement, Relation.TransGen (DeclaredRequires declared) task requirement →
        Before order requirement task) ∧
      ∀ setOrder' mapOrder' : IterationOrder (expandWithRequires declared),
        topoSortStable declared (expandWithRequires declared) setOrder' mapOrder' = order := by
  have greedy := topoSortStable_greedy declared setOrder mapOrder
  refine ⟨?_, ?_, ?_⟩
  · refine (greedy.perm Task.depth_requires).trans ?_
    rw [List.perm_ext_iff_of_nodup (Finset.nodup_toList _) declared.nodup_dedup]
    simp [expandWithRequires]
  · intro task requirement chain
    apply greedy.before Task.depth_requires
    refine Relation.TransGen.mono ?_ _ _ chain
    rintro task requirement ⟨declaredTask, declaredRequirement, required⟩
    exact ⟨by simpa [expandWithRequires] using declaredTask,
      by simpa [expandWithRequires] using declaredRequirement, required⟩
  · intro setOrder' mapOrder'
    exact (topoSortStable_greedy declared setOrder' mapOrder').unique (rankOf_injective declared)
      greedy

/-- Through a task that is not declared nothing is ordered: utterance segmentation links
morphosyntax to speech recognition, and is missing here. -/
theorem topoSortStable_undeclared_link :
    Relation.TransGen (fun task requirement => requirement ∈ Task.requires task)
      Task.morphosyntax .asr ∧
    topoSortStable [Task.morphosyntax, .asr] (expandWithRequires [Task.morphosyntax, .asr])
      (.ofDeclared _) (.ofDeclared _) = [Task.morphosyntax, .asr] ∧
    ¬ Before (topoSortStable [Task.morphosyntax, .asr]
      (expandWithRequires [Task.morphosyntax, .asr]) (.ofDeclared _) (.ofDeclared _)) .asr
        Task.morphosyntax := by
  refine ⟨?_, by decide, by decide⟩
  apply Relation.TransGen.head (show Task.utSeg ∈ Task.requires Task.morphosyntax by decide)
  apply Relation.TransGen.single
  decide

end Order

end Batchalign.Engine
