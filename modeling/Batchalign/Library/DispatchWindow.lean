import Batchalign.Library.Transition

/-!
# A window over a list of jobs

Jobs are admitted in the order of their list, a bounded number at a time. An admitted job
waits for a permit of a pool that several runs share, reports its notices one by one, and
keeps its result until it is delivered. What a job does depends on a choice made when it
starts, so that jobs which ask their surroundings are covered.

A consumer looks at each result as it is delivered and may stop the run, which drops what
is still in the window.
-/

namespace DispatchWindow

open Transition

section Definitions

inductive Phase (Notice Result : Type*) where
  | queued
  | running (rest : List Notice) (result : Result)
  | done (result : Result)

structure Slot (Job Notice Result : Type*) where
  place : ℕ
  job : Job
  phase : Phase Notice Result

/-- A run over a list of jobs. The mode says how its results are delivered. -/
structure Run (Mode Job Notice Result Stop : Type*) where
  mode : Mode
  jobs : List Job
  waiting : List (ℕ × Job)
  slots : List (Slot Job Notice Result)
  log : List (ℕ × Notice)
  delivered : List (ℕ × Result)
  stopped : Option Stop

/-- What a run is made of. In an ordered mode a result waits for the earlier ones. -/
structure Policy (Mode Job Choice Notice Result Answer Stop : Type*) where
  window : ℕ
  ordered : Mode → Bool
  behave : Choice → Job → List Notice × Result
  consume : Mode → Answer → Result → Option Stop

/-- The events of a run. A slot is given by its position in the window. -/
inductive RunEvent (Choice Answer : Type*) where
  | enter
  | acquire (position : ℕ) (choice : Choice)
  | emit (position : ℕ)
  | complete (position : ℕ)
  | deliver (position : ℕ) (answer : Answer)

variable {Mode Job Choice Notice Result Answer Stop : Type*}

def Phase.isQueued : Phase Notice Result → Bool
  | .queued => true
  | _ => false

def Phase.holdsPermit : Phase Notice Result → Bool
  | .running _ _ => true
  | _ => false

namespace Run

def start (mode : Mode) (jobs : List Job) : Run Mode Job Notice Result Stop where
  mode := mode
  jobs := jobs
  waiting := (List.range jobs.length).zip jobs
  slots := []
  log := []
  delivered := []
  stopped := none

/-- The permits the jobs in the window hold. -/
def held (run : Run Mode Job Notice Result Stop) : ℕ :=
  run.slots.countP fun slot => slot.phase.holdsPermit

def deliver (run : Run Mode Job Notice Result Stop) (position place : ℕ) (result : Result) :
    Run Mode Job Notice Result Stop :=
  { run with
    slots := run.slots.eraseIdx position
    delivered := run.delivered ++ [(place, result)] }

/-- The consumer gives up: what is not delivered is dropped. -/
def stop (run : Run Mode Job Notice Result Stop) (reason : Stop) :
    Run Mode Job Notice Result Stop :=
  { run with waiting := [], slots := [], stopped := some reason }

/-- One event of a run, with the permits that are free. -/
def step (policy : Policy Mode Job Choice Notice Result Answer Stop) (permits : ℕ)
    (run : Run Mode Job Notice Result Stop) :
    RunEvent Choice Answer → Option (ℕ × Run Mode Job Notice Result Stop)
  | .enter =>
      match run.waiting with
      | [] => none
      | (place, job) :: waiting =>
          if run.slots.length < policy.window then
            some (permits,
              { run with waiting := waiting, slots := run.slots ++ [⟨place, job, .queued⟩] })
          else none
  | .acquire position choice =>
      match run.slots[position]?, permits with
      | some ⟨place, job, .queued⟩, free + 1 =>
          let behaviour := policy.behave choice job
          let slot := ⟨place, job, .running behaviour.1 behaviour.2⟩
          some (free, { run with slots := run.slots.set position slot })
      | _, _ => none
  | .emit position =>
      match run.slots[position]? with
      | some ⟨place, job, .running (notice :: rest) result⟩ =>
          some (permits,
            { run with
              slots := run.slots.set position ⟨place, job, .running rest result⟩
              log := run.log ++ [(place, notice)] })
      | _ => none
  | .complete position =>
      match run.slots[position]? with
      | some ⟨place, job, .running [] result⟩ =>
          some (permits + 1,
            { run with slots := run.slots.set position ⟨place, job, .done result⟩ })
      | _ => none
  | .deliver position answer =>
      match run.slots[position]? with
      | some ⟨place, _, .done result⟩ =>
          if policy.ordered run.mode = true ∧ position ≠ 0 then none
          else
            let next := run.deliver position place result
            match policy.consume run.mode answer result with
            | none => some (permits, next)
            | some reason => some (permits + next.held, next.stop reason)
      | _ => none

/-- Nothing is left to admit or to deliver. -/
def Finished (run : Run Mode Job Notice Result Stop) : Prop :=
  run.waiting = [] ∧ run.slots = []

/-- The places a run still knows about. -/
def places (run : Run Mode Job Notice Result Stop) : List ℕ :=
  run.delivered.map Prod.fst ++ (run.slots.map Slot.place ++ run.waiting.map Prod.fst)

/-- What the job at a place has reported. -/
def logAt (run : Run Mode Job Notice Result Stop) (place : ℕ) : List Notice :=
  (run.log.filter fun entry => entry.1 = place).map Prod.snd

end Run

/-- The runs that draw on the same permits. -/
structure Pool (Mode Job Notice Result Stop : Type*) where
  permits : ℕ
  runs : List (Run Mode Job Notice Result Stop)

inductive PoolEvent (Mode Job Choice Answer : Type*) where
  | start (mode : Mode) (jobs : List Job)
  | run (index : ℕ) (event : RunEvent Choice Answer)

namespace Pool

def held (pool : Pool Mode Job Notice Result Stop) : ℕ :=
  (pool.runs.map Run.held).sum

def step (policy : Policy Mode Job Choice Notice Result Answer Stop)
    (pool : Pool Mode Job Notice Result Stop) :
    PoolEvent Mode Job Choice Answer → Option (Pool Mode Job Notice Result Stop)
  | .start mode jobs => some { pool with runs := pool.runs ++ [.start mode jobs] }
  | .run index event =>
      (stepAt (Run.step policy) pool.permits pool.runs index event).map fun next =>
        ⟨next.1, next.2⟩

end Pool

/-- The system of a pool with so many permits. -/
def system (policy : Policy Mode Job Choice Notice Result Answer Stop) (permits : ℕ) :
    System (Pool Mode Job Notice Result Stop) (PoolEvent Mode Job Choice Answer) where
  Initial pool := pool = ⟨permits, []⟩
  step := Pool.step policy

end Definitions

section Fires

variable {Mode Job Choice Notice Result Answer Stop : Type*}
  {policy : Policy Mode Job Choice Notice Result Answer Stop} {permits free : ℕ}
  {run next : Run Mode Job Notice Result Stop} {event : RunEvent Choice Answer}

/-- What the events do in the states that allow them. -/
inductive Fires (policy : Policy Mode Job Choice Notice Result Answer Stop) (permits : ℕ)
    (run : Run Mode Job Notice Result Stop) :
    RunEvent Choice Answer → ℕ → Run Mode Job Notice Result Stop → Prop where
  | enter {place job waiting} (first : run.waiting = (place, job) :: waiting)
      (room : run.slots.length < policy.window) :
      Fires policy permits run .enter permits
        { run with waiting := waiting, slots := run.slots ++ [⟨place, job, .queued⟩] }
  | acquire {before after place job free} (choice : Choice)
      (found : run.slots = before ++ ⟨place, job, .queued⟩ :: after)
      (isFree : permits = free + 1) :
      Fires policy permits run (.acquire before.length choice) free
        { run with
          slots := before ++ ⟨place, job,
            .running (policy.behave choice job).1 (policy.behave choice job).2⟩ :: after }
  | emit {before after place job notice rest result}
      (found : run.slots = before ++ ⟨place, job, .running (notice :: rest) result⟩ :: after) :
      Fires policy permits run (.emit before.length) permits
        { run with
          slots := before ++ ⟨place, job, .running rest result⟩ :: after
          log := run.log ++ [(place, notice)] }
  | complete {before after place job result}
      (found : run.slots = before ++ ⟨place, job, .running [] result⟩ :: after) :
      Fires policy permits run (.complete before.length) (permits + 1)
        { run with slots := before ++ ⟨place, job, .done result⟩ :: after }
  | deliver {before after place job result} (answer : Answer)
      (found : run.slots = before ++ ⟨place, job, .done result⟩ :: after)
      (inOrder : policy.ordered run.mode = true → before = [])
      (accepted : policy.consume run.mode answer result = none) :
      Fires policy permits run (.deliver before.length answer) permits
        { run with
          slots := before ++ after
          delivered := run.delivered ++ [(place, result)] }
  | stop {before after place job result reason} (answer : Answer)
      (found : run.slots = before ++ ⟨place, job, .done result⟩ :: after)
      (inOrder : policy.ordered run.mode = true → before = [])
      (refused : policy.consume run.mode answer result = some reason) :
      Fires policy permits run (.deliver before.length answer)
        (permits + (before ++ after).countP fun slot => slot.phase.holdsPermit)
        { run with
          waiting := []
          slots := []
          delivered := run.delivered ++ [(place, result)]
          stopped := some reason }

theorem Fires.of_step (steps : run.step policy permits event = some (free, next)) :
    Fires policy permits run event free next := by
  cases event with
  | enter =>
      simp only [Run.step] at steps
      split at steps
      · cases steps
      · rename_i place job waiting first
        split at steps
        · rename_i room
          cases steps
          exact .enter first room
        · cases steps
  | acquire position choice =>
      simp only [Run.step] at steps
      split at steps
      · rename_i place job found
        cases steps
        rcases exists_split found with ⟨before, after, slots, rfl, replaced, _⟩
        rw [replaced]
        exact .acquire choice slots rfl
      · cases steps
  | emit position =>
      simp only [Run.step] at steps
      split at steps
      · rename_i place job notice rest result found
        cases steps
        rcases exists_split found with ⟨before, after, slots, rfl, replaced, _⟩
        rw [replaced]
        exact .emit slots
      · cases steps
  | complete position =>
      simp only [Run.step] at steps
      split at steps
      · rename_i place job result found
        cases steps
        rcases exists_split found with ⟨before, after, slots, rfl, replaced, _⟩
        rw [replaced]
        exact .complete slots
      · cases steps
  | deliver position answer =>
      simp only [Run.step] at steps
      split at steps
      · rename_i place job result found
        rcases exists_split found with ⟨before, after, slots, rfl, _, erased⟩
        split at steps
        · cases steps
        · rename_i allowed
          have inOrder : policy.ordered run.mode = true → before = [] := fun ordered =>
            List.length_eq_zero_iff.mp (not_not.mp fun later => allowed ⟨ordered, later⟩)
          split at steps
          · rename_i accepted
            cases steps
            rw [Run.deliver, erased]
            exact .deliver answer slots inOrder accepted
          · rename_i reason refused
            cases steps
            rw [Run.held, Run.stop, Run.deliver, erased]
            exact .stop answer slots inOrder refused
      · cases steps

end Fires

section Books

variable {Mode Job Choice Notice Result Answer Stop : Type*}
  {policy : Policy Mode Job Choice Notice Result Answer Stop} {permits free : ℕ}
  {run next : Run Mode Job Notice Result Stop} {event : RunEvent Choice Answer}

/-- The job at a place did this, for some choice. -/
def Explained (policy : Policy Mode Job Choice Notice Result Answer Stop) (jobs : List Job)
    (place : ℕ) (notices : List Notice) (result : Result) : Prop :=
  ∃ job choice, jobs[place]? = some job ∧ policy.behave choice job = (notices, result)

/-- What a slot says about the notices reported so far. -/
def Phase.Accounts (policy : Policy Mode Job Choice Notice Result Answer Stop) (job : Job)
    (reported : List Notice) : Phase Notice Result → Prop
  | .queued => reported = []
  | .running rest result => ∃ choice, policy.behave choice job = (reported ++ rest, result)
  | .done result => ∃ choice, policy.behave choice job = (reported, result)

/-- The books of a run. Every place is known once, and the log of a place fits what is known
about it. -/
structure Lawful (policy : Policy Mode Job Choice Notice Result Answer Stop)
    (run : Run Mode Job Notice Result Stop) : Prop where
  nodup : run.places.Nodup
  inside : ∀ place ∈ run.places, place < run.jobs.length
  all : run.stopped = none → ∀ place < run.jobs.length, place ∈ run.places
  admitted : run.slots.length ≤ policy.window
  waiting : ∀ entry ∈ run.waiting,
    run.jobs[entry.1]? = some entry.2 ∧ run.logAt entry.1 = []
  slots : ∀ slot ∈ run.slots, run.jobs[slot.place]? = some slot.job ∧
    slot.phase.Accounts policy slot.job (run.logAt slot.place)
  delivered : ∀ entry ∈ run.delivered,
    Explained policy run.jobs entry.1 (run.logAt entry.1) entry.2
  inOrder : policy.ordered run.mode = true → run.places <+: List.range run.jobs.length

theorem places_start (mode : Mode) (jobs : List Job) :
    (Run.start mode jobs : Run Mode Job Notice Result Stop).places = List.range jobs.length := by
  simp [Run.places, Run.start, List.map_fst_zip]

theorem Lawful.start (mode : Mode) (jobs : List Job) :
    Lawful policy (.start mode jobs) where
  nodup := by
    rw [places_start]
    exact List.nodup_range
  inside place known := by
    rw [places_start] at known
    exact List.mem_range.mp known
  all _ place inside := by
    rw [places_start]
    exact List.mem_range.mpr inside
  admitted := Nat.zero_le _
  waiting entry isWaiting := by
    refine ⟨?_, rfl⟩
    rcases List.getElem_of_mem isWaiting with ⟨index, inside, isEntry⟩
    rw [← isEntry]
    simp only [Run.start, List.length_zip, List.length_range, min_self] at inside
    simp [Run.start, inside]
  slots slot isSlot := by cases isSlot
  delivered entry isDelivered := by cases isDelivered
  inOrder _ := by
    rw [places_start]
    exact List.prefix_refl _

/-- Places are told apart by their positions among the known ones. -/
theorem Lawful.place_ne {before after : List (Slot Job Notice Result)}
    {slot : Slot Job Notice Result} (lawful : Lawful policy run)
    (found : run.slots = before ++ slot :: after) :
    (∀ entry ∈ run.waiting, entry.1 ≠ slot.place) ∧
      (∀ other ∈ before ++ after, other.place ≠ slot.place) ∧
        ∀ entry ∈ run.delivered, entry.1 ≠ slot.place := by
  have nodup := lawful.nodup
  simp only [Run.places, found, List.map_append, List.map_cons, List.nodup_append,
    List.nodup_cons, List.mem_append, List.mem_cons, List.mem_map] at nodup
  rcases nodup with ⟨_, ⟨⟨_, ⟨notAfter, _⟩, apartBefore⟩, _, apartWaiting⟩, apartDelivered⟩
  refine ⟨?_, ?_, ?_⟩
  · intro entry isWaiting same
    exact apartWaiting slot.place (Or.inr (Or.inl rfl)) entry.1 ⟨entry, isWaiting, rfl⟩ same.symm
  · intro other isOther same
    rcases List.mem_append.mp isOther with isBefore | isAfter
    · exact apartBefore other.place ⟨other, isBefore, rfl⟩ slot.place (Or.inl rfl) same
    · exact notAfter ⟨other, isAfter, same⟩
  · intro entry isDelivered same
    exact apartDelivered entry.1 ⟨entry, isDelivered, rfl⟩ slot.place
      (Or.inl (Or.inr (Or.inl rfl))) same

/-- A slot moves on, and the log grows at its place only. -/
theorem Lawful.replace {before after : List (Slot Job Notice Result)} {place : ℕ} {job : Job}
    {phase later : Phase Notice Result} {log : List (ℕ × Notice)} (lawful : Lawful policy run)
    (found : run.slots = before ++ ⟨place, job, phase⟩ :: after)
    (elsewhere : ∀ other ≠ place, Run.logAt { run with log := log } other = run.logAt other)
    (accounts : later.Accounts policy job (Run.logAt { run with log := log } place)) :
    Lawful policy { run with slots := before ++ ⟨place, job, later⟩ :: after, log := log } := by
  have isHere : (⟨place, job, phase⟩ : Slot Job Notice Result) ∈ run.slots := by simp [found]
  have places : Run.places
      { run with slots := before ++ ⟨place, job, later⟩ :: after, log := log } = run.places := by
    simp [Run.places, found]
  rcases lawful.place_ne found with ⟨notWaiting, notSlot, notDelivered⟩
  constructor
  · rw [places]
    exact lawful.nodup
  · rw [places]
    exact lawful.inside
  · rw [places]
    exact lawful.all
  · have admitted := lawful.admitted
    rw [found] at admitted
    simpa using admitted
  · intro entry isWaiting
    have known := lawful.waiting entry isWaiting
    exact ⟨known.1, (elsewhere _ (notWaiting entry isWaiting)).trans known.2⟩
  · intro slot isSlot
    by_cases here : slot = ⟨place, job, later⟩
    · subst here
      exact ⟨(lawful.slots _ isHere).1, accounts⟩
    · have isOther : slot ∈ before ++ after := by
        simp only [List.mem_append, List.mem_cons] at isSlot ⊢
        tauto
      have isSlot' : slot ∈ run.slots := by
        rw [found]
        simp only [List.mem_append, List.mem_cons] at isOther ⊢
        tauto
      have known := lawful.slots slot isSlot'
      refine ⟨known.1, ?_⟩
      have same := elsewhere slot.place (notSlot slot isOther)
      exact same ▸ known.2
  · intro entry isDelivered
    have known := lawful.delivered entry isDelivered
    have same := elsewhere entry.1 (notDelivered entry isDelivered)
    exact same ▸ known
  · rw [places]
    exact lawful.inOrder

/-- A delivered place is still known; without the others it may be the only one. -/
theorem Lawful.hand {before after : List (Slot Job Notice Result)} {place : ℕ} {job : Job}
    {result : Result} (lawful : Lawful policy run)
    (found : run.slots = before ++ ⟨place, job, .done result⟩ :: after)
    (inOrder : policy.ordered run.mode = true → before = []) :
    Lawful policy { run with
      slots := before ++ after
      delivered := run.delivered ++ [(place, result)] } := by
  have isHere : (⟨place, job, .done result⟩ : Slot Job Notice Result) ∈ run.slots := by
    simp [found]
  have places : (Run.places { run with
      slots := before ++ after
      delivered := run.delivered ++ [(place, result)] }).Perm run.places := by
    simp only [Run.places, found, List.map_append, List.map_cons, List.map_nil,
      List.append_assoc, List.cons_append, List.nil_append]
    apply List.Perm.append_left
    exact List.perm_middle.symm
  constructor
  · exact places.nodup_iff.mpr lawful.nodup
  · intro other known
    exact lawful.inside other (places.mem_iff.mp known)
  · intro going other inside
    exact places.mem_iff.mpr (lawful.all going other inside)
  · have admitted := lawful.admitted
    rw [found] at admitted
    simp only [List.length_append, List.length_cons] at admitted ⊢
    omega
  · exact lawful.waiting
  · intro slot isSlot
    refine lawful.slots slot ?_
    rw [found]
    simp only [List.mem_append, List.mem_cons] at isSlot ⊢
    tauto
  · intro entry isDelivered
    rcases List.mem_append.mp isDelivered with earlier | isLast
    · exact lawful.delivered entry earlier
    · rw [List.mem_singleton] at isLast
      subst isLast
      rcases lawful.slots _ isHere with ⟨isJob, choice, behaves⟩
      exact ⟨job, choice, isJob, behaves⟩
  · intro ordered
    have first := inOrder ordered
    subst first
    have inOrder := lawful.inOrder ordered
    simpa [Run.places, found] using inOrder

/-- What is delivered is kept when the rest is dropped. -/
theorem Lawful.stop (lawful : Lawful policy run) (reason : Stop) :
    Lawful policy (run.stop reason) := by
  have places : (run.stop reason).places = run.delivered.map Prod.fst := by
    simp [Run.places, Run.stop]
  have kept : (run.delivered.map Prod.fst).Sublist run.places :=
    List.sublist_append_left _ _
  constructor
  · rw [places]
    exact kept.nodup lawful.nodup
  · rw [places]
    exact fun place known => lawful.inside place (kept.subset known)
  · intro going
    cases going
  · exact Nat.zero_le _
  · intro entry isWaiting
    cases isWaiting
  · intro slot isSlot
    cases isSlot
  · exact lawful.delivered
  · intro ordered
    rw [places]
    exact (List.prefix_append _ _).trans (lawful.inOrder ordered)

theorem logAt_emit (run : Run Mode Job Notice Result Stop) (place other : ℕ) (notice : Notice) :
    Run.logAt { run with log := run.log ++ [(place, notice)] } other =
      if place = other then run.logAt other ++ [notice] else run.logAt other := by
  by_cases here : place = other <;> simp [Run.logAt, here]

theorem Lawful.fires (lawful : Lawful policy run)
    (fires : Fires policy permits run event free next) : Lawful policy next := by
  cases fires with
  | @enter place job waiting first room =>
      have isFirst : (place, job) ∈ run.waiting := by simp [first]
      have places : Run.places
          { run with waiting := waiting, slots := run.slots ++ [⟨place, job, .queued⟩] } =
            run.places := by
        simp [Run.places, first]
      constructor
      · rw [places]
        exact lawful.nodup
      · rw [places]
        exact lawful.inside
      · rw [places]
        exact lawful.all
      · simp only [List.length_append, List.length_cons, List.length_nil]
        omega
      · intro entry isWaiting
        refine lawful.waiting entry ?_
        rw [first]
        exact List.mem_cons_of_mem _ isWaiting
      · intro slot isSlot
        rcases List.mem_append.mp isSlot with earlier | isLast
        · exact lawful.slots slot earlier
        · rw [List.mem_singleton] at isLast
          subst isLast
          exact lawful.waiting (place, job) isFirst
      · exact lawful.delivered
      · rw [places]
        exact lawful.inOrder
  | @acquire before after place job free choice found isFree =>
      refine lawful.replace found (fun _ _ => rfl) ⟨choice, ?_⟩
      have silent : run.logAt place = [] :=
        (lawful.slots ⟨place, job, .queued⟩ (by simp [found])).2
      have here : Run.logAt { run with log := run.log } place = [] := silent
      rw [here]
      rfl
  | @emit before after place job notice rest result found =>
      rcases (lawful.slots ⟨place, job, .running (notice :: rest) result⟩ (by simp [found])).2
        with ⟨choice, behaves⟩
      refine lawful.replace found ?_ ⟨choice, ?_⟩
      · intro other apart
        rw [logAt_emit, if_neg (Ne.symm apart)]
      · rw [logAt_emit, if_pos rfl, List.append_assoc]
        exact behaves
  | @complete before after place job result found =>
      rcases (lawful.slots ⟨place, job, .running [] result⟩ (by simp [found])).2
        with ⟨choice, behaves⟩
      refine lawful.replace found (fun _ _ => rfl) ⟨choice, ?_⟩
      rw [List.append_nil] at behaves
      exact behaves
  | deliver answer found inOrder accepted => exact lawful.hand found inOrder
  | stop answer found inOrder refused => exact (lawful.hand found inOrder).stop _

/-- A run stops exactly at a delivery the consumer refuses. -/
structure Judged (policy : Policy Mode Job Choice Notice Result Answer Stop)
    (run : Run Mode Job Notice Result Stop) : Prop where
  accepted : run.stopped = none →
    ∀ entry ∈ run.delivered, ∃ answer, policy.consume run.mode answer entry.2 = none
  refused : ∀ reason, run.stopped = some reason → run.Finished ∧
    ∃ earlier last answer, run.delivered = earlier ++ [last] ∧
      policy.consume run.mode answer last.2 = some reason ∧
        ∀ entry ∈ earlier, ∃ answer, policy.consume run.mode answer entry.2 = none

theorem Judged.start (mode : Mode) (jobs : List Job) :
    Judged policy (.start mode jobs) where
  accepted _ entry isDelivered := by cases isDelivered
  refused reason stopped := by cases stopped

/-- A run with something in its window has not stopped. -/
theorem Judged.going (judged : Judged policy run) (left : ¬run.Finished) :
    run.stopped = none := by
  cases stopped : run.stopped with
  | none => rfl
  | some reason => exact absurd (judged.refused reason stopped).1 left

theorem not_finished_of_slot {before after : List (Slot Job Notice Result)}
    {slot : Slot Job Notice Result} (found : run.slots = before ++ slot :: after) :
    ¬run.Finished := by
  rintro ⟨_, empty⟩
  simp [found] at empty

theorem Judged.fires (judged : Judged policy run)
    (fires : Fires policy permits run event free next) : Judged policy next := by
  cases fires with
  | enter first room =>
      have going : run.stopped = none := judged.going fun finished => by
        simp [finished.1] at first
      exact ⟨judged.accepted, fun reason stopped => by simp [going] at stopped⟩
  | acquire choice found isFree =>
      have going := judged.going (not_finished_of_slot found)
      exact ⟨judged.accepted, fun reason stopped => by simp [going] at stopped⟩
  | emit found =>
      have going := judged.going (not_finished_of_slot found)
      exact ⟨judged.accepted, fun reason stopped => by simp [going] at stopped⟩
  | complete found =>
      have going := judged.going (not_finished_of_slot found)
      exact ⟨judged.accepted, fun reason stopped => by simp [going] at stopped⟩
  | @deliver before after place job result answer found inOrder accepted =>
      have going := judged.going (not_finished_of_slot found)
      refine ⟨?_, fun reason stopped => by simp [going] at stopped⟩
      intro _ entry isDelivered
      rcases List.mem_append.mp isDelivered with earlier | isLast
      · exact judged.accepted going entry earlier
      · rw [List.mem_singleton] at isLast
        subst isLast
        exact ⟨answer, accepted⟩
  | @stop before after place job result reason answer found inOrder refused =>
      have going := judged.going (not_finished_of_slot found)
      refine ⟨nofun, ?_⟩
      intro reason' stopped
      cases stopped
      exact ⟨⟨rfl, rfl⟩, run.delivered, (place, result), answer, rfl, refused,
        judged.accepted going⟩

end Books

end DispatchWindow
