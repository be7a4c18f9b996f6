import Mathlib

/-!
# Event-driven systems

A system moves from state to state by events, some of which may be disabled. An
invariant is shown for the initial states and for one event, and then holds in
every reachable state. A measure that every event of a kind decreases bounds the
runs made of such events; one that no event raises bounds the events that
decrease it. A system that is never stuck before its goal reaches it by events
that decrease a well-founded measure.

Machines that take turns on a shared resource are stepped one at a time (`stepAt`).
-/

namespace Transition

structure System (State Event : Type*) where
  Initial : State → Prop
  step : State → Event → Option State

namespace System

variable {State Event : Type*} (system : System State Event)

/-- The state after a list of events, none if one of them is disabled. -/
def run : State → List Event → Option State
  | state, [] => some state
  | state, event :: events => (system.step state event).bind fun next => run next events

def Reachable (state : State) : Prop :=
  ∃ initial events, system.Initial initial ∧ system.run initial events = some state

@[simp] theorem run_nil (state : State) : system.run state [] = some state := rfl

@[simp] theorem run_cons (state : State) (event : Event) (events : List Event) :
    system.run state (event :: events) =
      (system.step state event).bind fun next => system.run next events := rfl

variable {system}

theorem run_append {state : State} {before after : List Event} :
    system.run state (before ++ after) =
      (system.run state before).bind fun next => system.run next after := by
  induction before generalizing state with
  | nil => simp
  | cons event before ih =>
      simp only [List.cons_append, run_cons, Option.bind_assoc, ih]

theorem Reachable.initial {state : State} (isInitial : system.Initial state) :
    system.Reachable state :=
  ⟨state, [], isInitial, rfl⟩

theorem Reachable.run {state next : State} {events : List Event}
    (reachable : system.Reachable state) (runs : system.run state events = some next) :
    system.Reachable next := by
  rcases reachable with ⟨initial, before, isInitial, reaches⟩
  refine ⟨initial, before ++ events, isInitial, ?_⟩
  rw [run_append, reaches]
  exact runs

variable (system) in
/-- A property of the initial states that every event preserves. -/
structure Invariant (holds : State → Prop) : Prop where
  initial : ∀ state, system.Initial state → holds state
  step : ∀ state event next, holds state → system.step state event = some next → holds next

/-- A run of events of a kind keeps what each event of the kind keeps. -/
theorem run_of_kind {holds : State → Prop} (kind : Event → Prop)
    (keeps : ∀ state event next, kind event → holds state → system.step state event = some next →
      holds next)
    {state next : State} {events : List Event} (ofKind : ∀ event ∈ events, kind event)
    (before : holds state) (runs : system.run state events = some next) : holds next := by
  induction events generalizing state with
  | nil =>
      simp only [run_nil, Option.some.injEq] at runs
      subst runs
      exact before
  | cons event events ih =>
      simp only [run_cons] at runs
      rcases Option.bind_eq_some_iff.mp runs with ⟨middle, steps, rest⟩
      have first := keeps _ _ _ (ofKind event List.mem_cons_self) before steps
      exact ih (fun event member => ofKind event (List.mem_cons_of_mem _ member)) first rest

theorem Invariant.run {holds : State → Prop} (invariant : system.Invariant holds)
    {state next : State} {events : List Event} (before : holds state)
    (runs : system.run state events = some next) : holds next :=
  run_of_kind (fun _ => True) (fun state event next _ => invariant.step state event next)
    (fun _ _ => trivial) before runs

theorem Invariant.reachable {holds : State → Prop} (invariant : system.Invariant holds)
    {state : State} (reachable : system.Reachable state) : holds state := by
  rcases reachable with ⟨initial, events, isInitial, runs⟩
  exact invariant.run (invariant.initial _ isInitial) runs

/-- A measure that falls with every event that counts, and rises with none, bounds their number. -/
theorem count_le_of_kind (kind : Event → Prop) (measure : State → ℕ) (counts : Event → Prop)
    [DecidablePred counts]
    (falls : ∀ state event next, kind event → system.step state event = some next →
      measure next + (if counts event then 1 else 0) ≤ measure state)
    {state next : State} {events : List Event} (ofKind : ∀ event ∈ events, kind event)
    (runs : system.run state events = some next) :
    measure next + events.countP (fun event => counts event) ≤ measure state := by
  induction events generalizing state with
  | nil =>
      simp only [run_nil, Option.some.injEq] at runs
      simp [runs]
  | cons event events ih =>
      simp only [run_cons] at runs
      rcases Option.bind_eq_some_iff.mp runs with ⟨middle, steps, rest⟩
      have first := falls _ _ _ (ofKind event List.mem_cons_self) steps
      have later := ih (fun event member => ofKind event (List.mem_cons_of_mem _ member)) rest
      rw [List.countP_cons]
      simp only [decide_eq_true_eq]
      omega

/-- A run of events that all decrease a measure is no longer than the measure. -/
theorem length_le_of_decreasing {measure : State → ℕ} {kind : Event → Prop}
    (decreasing : ∀ state event next, kind event → system.step state event = some next →
      measure next < measure state)
    {state next : State} {events : List Event} (ofKind : ∀ event ∈ events, kind event)
    (runs : system.run state events = some next) :
    measure next + events.length ≤ measure state := by
  have counted := count_le_of_kind kind measure (fun _ => True)
    (fun state event next isKind steps => by simpa using decreasing state event next isKind steps)
    ofKind runs
  simpa using counted

/-- No run goes on forever with events that decrease a well-founded measure. -/
theorem not_forever {less : State → State → Prop} (wellFounded : WellFounded less)
    {kind : Event → Prop}
    (decreasing : ∀ state event next, kind event → system.step state event = some next →
      less next state)
    (states : ℕ → State) (events : ℕ → Event) (ofKind : ∀ time, kind (events time)) :
    ∃ time, system.step (states time) (events time) ≠ some (states (time + 1)) := by
  have : IsWellFounded State less := ⟨wellFounded⟩
  rcases WellFounded.not_rel_apply_succ (r := less) states with ⟨time, notLess⟩
  exact ⟨time, fun steps => notLess (decreasing _ _ _ (ofKind time) steps)⟩

/-- Events of a kind lead to the goal when one of them is always possible before it. -/
theorem Invariant.exists_run {holds goal : State → Prop} (invariant : system.Invariant holds)
    {less : State → State → Prop} (wellFounded : WellFounded less) {kind : Event → Prop}
    (decreasing : ∀ state event next, kind event → system.step state event = some next →
      less next state)
    (progress : ∀ state, holds state →
      goal state ∨ ∃ event next, kind event ∧ system.step state event = some next)
    {state : State} (before : holds state) :
    ∃ events final, (∀ event ∈ events, kind event) ∧
      system.run state events = some final ∧ goal final := by
  induction state using wellFounded.induction with
  | _ state ih =>
      rcases progress state before with reached | ⟨event, next, ofKind, steps⟩
      · exact ⟨[], state, nofun, rfl, reached⟩
      · rcases ih next (decreasing _ _ _ ofKind steps) (invariant.step _ _ _ before steps)
          with ⟨events, final, ofKinds, runs, reached⟩
        refine ⟨event :: events, final, ?_, ?_, reached⟩
        · rintro other isEvent
          rcases List.mem_cons.mp isEvent with rfl | later
          · exact ofKind
          · exact ofKinds other later
        · rw [run_cons, steps]
          exact runs

end System

section Turns

variable {Resource Machine Event α : Type*}

/-- One machine of a list moves, on the resource as the others have left it. -/
def stepAt (step : Resource → Machine → Event → Option (Resource × Machine))
    (resource : Resource) (machines : List Machine) (index : ℕ) (event : Event) :
    Option (Resource × List Machine) :=
  machines[index]?.bind fun machine =>
    (step resource machine event).map fun next => (next.1, machines.set index next.2)

/-- An element at its position, with what the updates there leave. -/
theorem exists_split {items : List α} {position : ℕ} {item : α}
    (found : items[position]? = some item) :
    ∃ before after, items = before ++ item :: after ∧ position = before.length ∧
      (∀ other, items.set position other = before ++ other :: after) ∧
      items.eraseIdx position = before ++ after := by
  rcases List.getElem?_eq_some_iff.mp found with ⟨inside, isItem⟩
  refine ⟨items.take position, items.drop (position + 1), ?_, ?_, ?_, ?_⟩
  · rw [← isItem, List.cons_getElem_drop_succ, List.take_append_drop]
  · rw [List.length_take, min_eq_left inside.le]
  · intro other
    exact List.set_eq_take_append_cons_drop.trans (if_pos inside)
  · exact List.eraseIdx_eq_take_drop_succ items position

/-- The other machines stay as they are. -/
theorem exists_split_of_stepAt {step : Resource → Machine → Event → Option (Resource × Machine)}
    {resource later : Resource} {machines moved : List Machine} {index : ℕ} {event : Event}
    (steps : stepAt step resource machines index event = some (later, moved)) :
    ∃ before machine after next, machines = before ++ machine :: after ∧
      moved = before ++ next :: after ∧ step resource machine event = some (later, next) := by
  rcases Option.bind_eq_some_iff.mp steps with ⟨machine, found, moves⟩
  rcases Option.map_eq_some_iff.mp moves with ⟨⟨free, next⟩, stepped, isLater⟩
  cases isLater
  rcases exists_split found with ⟨before, after, isMachines, _, replaced, _⟩
  exact ⟨before, machine, after, next, isMachines, replaced next, stepped⟩

end Turns

end Transition
