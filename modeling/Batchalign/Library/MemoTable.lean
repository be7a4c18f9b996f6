import Mathlib

/-!
# Answers served from a table

Inputs are answered from a table under a key, and computed and entered when the
key is new. Failures are not entered. What is observed of the answers is right in
every sequence of inputs exactly when inputs with one key have answers that look
alike; where the key settles which inputs fail, this holds of each sequence by itself.
-/

namespace MemoTable

variable {Input Key Output Error Observed : Type*} [DecidableEq Key]

/-- The answer to one input and the table after it. -/
def serve (key : Input → Key) (compute : Input → Except Error Output)
    (table : List (Key × Output)) (input : Input) :
    Except Error Output × List (Key × Output) :=
  match table.lookup (key input) with
  | some output => (.ok output, table)
  | none =>
      match compute input with
      | .ok output => (.ok output, (key input, output) :: table)
      | .error error => (.error error, table)

/-- The inputs with their answers, in order. -/
def serveAll (key : Input → Key) (compute : Input → Except Error Output) :
    List (Key × Output) → List Input → List (Input × Except Error Output)
  | _, [] => []
  | table, input :: inputs =>
      (input, (serve key compute table input).1) ::
        serveAll key compute (serve key compute table input).2 inputs

/-- The answer computed for `x` looks like the one computed for `y`. -/
def Coherent (compute : Input → Except Error Output) (observe : Output → Observed)
    (x y : Input) : Prop :=
  ∀ output, compute x = .ok output → (compute y).map observe = .ok (observe output)

/-- Every entry was computed for an input of the set. -/
def Computed (key : Input → Key) (compute : Input → Except Error Output) (inputs : Set Input)
    (table : List (Key × Output)) : Prop :=
  ∀ entry ∈ table, ∃ x ∈ inputs, key x = entry.1 ∧ compute x = .ok entry.2

theorem mem_of_lookup {table : List (Key × Output)} {k : Key} {output : Output}
    (found : table.lookup k = some output) : (k, output) ∈ table := by
  rcases List.lookup_eq_some_iff.mp found with ⟨before, after, rfl, -⟩
  simp

variable {key : Input → Key} {compute : Input → Except Error Output}
  {observe : Output → Observed} {inputs : Set Input}

theorem Computed.serve {table : List (Key × Output)} (computed : Computed key compute inputs table)
    {input : Input} (member : input ∈ inputs) :
    Computed key compute inputs (serve key compute table input).2 := by
  simp only [MemoTable.serve]
  cases table.lookup (key input) with
  | some output => exact computed
  | none =>
      cases result : compute input with
      | error error => exact computed
      | ok output =>
          intro entry isEntry
          rcases List.mem_cons.mp isEntry with rfl | old
          · exact ⟨input, member, rfl, result⟩
          · exact computed entry old

/-- One answer looks like the computed one. -/
theorem serve_observed {table : List (Key × Output)} (computed : Computed key compute inputs table)
    (coherent : ∀ x ∈ inputs, ∀ y ∈ inputs, key x = key y → Coherent compute observe x y)
    {input : Input} (member : input ∈ inputs) :
    (serve key compute table input).1.map observe = (compute input).map observe := by
  simp only [serve]
  cases found : table.lookup (key input) with
  | some output =>
      rcases computed _ (mem_of_lookup found) with ⟨x, isInput, sameKey, result⟩
      exact (coherent x isInput input member sameKey output result).symm
  | none =>
      cases compute input <;> rfl

theorem serveAll_observed {table : List (Key × Output)}
    (computed : Computed key compute inputs table)
    (coherent : ∀ x ∈ inputs, ∀ y ∈ inputs, key x = key y → Coherent compute observe x y)
    {sequence : List Input} (members : ∀ input ∈ sequence, input ∈ inputs) :
    ∀ answer ∈ serveAll key compute table sequence,
      answer.2.map observe = (compute answer.1).map observe := by
  induction sequence generalizing table with
  | nil => simp [serveAll]
  | cons input sequence ih =>
      rcases List.forall_mem_cons.mp members with ⟨member, rest⟩
      intro answer answered
      rcases List.mem_cons.mp answered with rfl | later
      · exact serve_observed computed coherent member
      · exact ih (computed.serve member) rest answer later

/-- Every sequence over a set of inputs is answered as computed exactly when inputs of the
set with one key are coherent. -/
theorem serveAll_observed_iff :
    (∀ sequence : List Input, (∀ input ∈ sequence, input ∈ inputs) →
      ∀ answer ∈ serveAll key compute [] sequence,
        answer.2.map observe = (compute answer.1).map observe) ↔
      ∀ x ∈ inputs, ∀ y ∈ inputs, key x = key y → Coherent compute observe x y := by
  constructor
  · intro answered x isInput y isInput' sameKey output result
    have second := answered [x, y] (by simp [isInput, isInput']) (y, .ok output) (by
      simp [serveAll, serve, result, sameKey])
    exact second.symm
  · intro coherent sequence members
    apply serveAll_observed _ coherent members
    intro entry impossible
    cases impossible

section OneSequence

theorem lookup_serve {table : List (Key × Output)} {k : Key} {output : Output}
    (found : table.lookup k = some output) (input : Input) :
    (serve key compute table input).2.lookup k = some output := by
  simp only [serve]
  cases old : table.lookup (key input) with
  | some => exact found
  | none =>
      cases compute input with
      | error => exact found
      | ok computed =>
          have new : k ≠ key input := by
            rintro rfl
            cases found.symm.trans old
          rw [List.lookup_cons, beq_eq_false_iff_ne.mpr new]
          exact found

/-- An entry answers every later input with its key. -/
theorem mem_serveAll_of_lookup {table : List (Key × Output)} {output : Output} {y : Input}
    (found : table.lookup (key y) = some output) {sequence : List Input} (later : y ∈ sequence) :
    (y, .ok output) ∈ serveAll key compute table sequence := by
  induction sequence generalizing table with
  | nil => cases later
  | cons input sequence ih =>
      rcases List.mem_cons.mp later with rfl | rest
      · simp [serveAll, serve, found]
      · exact List.mem_cons_of_mem _ (ih (lookup_serve found input) rest)

/-- In a sequence answered as computed, the first input with a key looks like the later ones. -/
theorem coherent_head {table : List (Key × Output)} {x y : Input} {sequence : List Input}
    (observed : ∀ answer ∈ serveAll key compute table (x :: sequence),
      answer.2.map observe = (compute answer.1).map observe)
    (later : y ∈ sequence) (sameKey : key x = key y) {output : Output}
    (result : compute x = .ok output) :
    (compute y).map observe = .ok (observe output) := by
  rcases List.forall_mem_cons.mp observed with ⟨atHead, rest⟩
  cases found : table.lookup (key x) with
  | some entry =>
      have atLater := rest _ (mem_serveAll_of_lookup
        (lookup_serve (sameKey ▸ found) x) later)
      simp only [serve, found, result] at atHead
      rw [← atLater]
      exact atHead
  | none =>
      have entered : (serve key compute table x).2.lookup (key y) = some output := by
        simp [serve, found, result, ← sameKey]
      exact (rest _ (mem_serveAll_of_lookup entered later)).symm

theorem coherent_of_observed {table : List (Key × Output)}
    (sameSuccess : ∀ x y, key x = key y → Coherent compute (fun _ => ()) x y)
    {sequence : List Input}
    (observed : ∀ answer ∈ serveAll key compute table sequence,
      answer.2.map observe = (compute answer.1).map observe) :
    ∀ x ∈ sequence, ∀ y ∈ sequence, key x = key y → Coherent compute observe x y := by
  induction sequence generalizing table with
  | nil => intro x impossible; cases impossible
  | cons input sequence ih =>
      rcases List.forall_mem_cons.mp observed with ⟨-, rest⟩
      intro x xMem y yMem sameKey output result
      rcases List.mem_cons.mp xMem with rfl | xLater
      · rcases List.mem_cons.mp yMem with rfl | yLater
        · rw [result]
          rfl
        · exact coherent_head observed yLater sameKey result
      · rcases List.mem_cons.mp yMem with rfl | yLater
        · -- the later input succeeds, so the first one does
          have success := sameSuccess x y sameKey output result
          cases first : compute y with
          | error error =>
              rw [first] at success
              cases success
          | ok output' =>
              have alike := coherent_head observed xLater sameKey.symm first
              rw [result] at alike
              exact alike.symm
        · exact ih rest x xLater y yLater sameKey output result

/-- Where the key settles which inputs fail, a sequence is answered as computed exactly when
its inputs with one key are coherent. -/
theorem serveAll_observed_iff_coherent
    (sameSuccess : ∀ x y, key x = key y → Coherent compute (fun _ => ()) x y)
    (sequence : List Input) :
    (∀ answer ∈ serveAll key compute [] sequence,
        answer.2.map observe = (compute answer.1).map observe) ↔
      ∀ x ∈ sequence, ∀ y ∈ sequence, key x = key y → Coherent compute observe x y := by
  constructor
  · exact coherent_of_observed sameSuccess
  · intro coherent
    exact serveAll_observed_iff.mpr coherent sequence (fun _ member => member)

end OneSequence

end MemoTable
