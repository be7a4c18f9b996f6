import Batchalign.Runners.Surroundings

/-!
# Scaled progress

`ScaledProgress` of `base.rs`. A runner starts one step after the other, and a backend tells how
far it is within a step. Each step fills a band of four units, so that the total stays the same
for the whole stage. The arithmetic is that of `u64`, which wraps.
-/

namespace Batchalign.Runners

section Definitions

/-- `PROGRESS_SCALE` as a `u64`. -/
def progressScaleU64 : UInt64 := UInt64.ofNat progressScale

/-- `outerStep` counts the steps from 1, and is 0 before the first one. -/
structure ScaledProgress where
  sourceId : String
  task : Task
  outerTotal : UInt64
  outerStep : UInt64

inductive ProgressCall where
  | startStep
  | tick (i n : UInt64)
  | finish
deriving DecidableEq, Repr

namespace ScaledProgress

def new (sourceId : String) (task : Task) (outerTotal : UInt64) : ScaledProgress where
  sourceId := sourceId
  task := task
  outerTotal := outerTotal
  outerStep := 0

def emitScaled (progress : ScaledProgress) (kMinus1 i n : UInt64) : ProgressEvent :=
  let inner := if n = 0 then 0 else i * progressScaleU64 / n
  let completed := kMinus1 * progressScaleU64 + inner
  let total := progress.outerTotal * progressScaleU64
  (RunnerEvent.stageTick progress.sourceId progress.task completed.toNat
    total.toNat).toProgressEvent

def startStep (progress : ScaledProgress) : ScaledProgress × ProgressEvent :=
  let k := progress.outerStep + 1
  ({ progress with outerStep := k }, progress.emitScaled (k - 1) 0 1)

def finish (progress : ScaledProgress) : ProgressEvent :=
  progress.emitScaled progress.outerTotal 0 1

/-- The subtraction saturates. -/
def tick (progress : ScaledProgress) (i n : UInt64) : ProgressEvent :=
  let k := if progress.outerStep = 0 then 0 else progress.outerStep - 1
  progress.emitScaled k i n

def perform (progress : ScaledProgress) : ProgressCall → ScaledProgress × ProgressEvent
  | .startStep => progress.startStep
  | .tick i n => (progress, progress.tick i n)
  | .finish => (progress, progress.finish)

/-- The events that a list of calls emits. -/
def run : ScaledProgress → List ProgressCall → List ProgressEvent
  | _, [] => []
  | progress, call :: calls =>
      (progress.perform call).2 :: run (progress.perform call).1 calls

end ScaledProgress

end Definitions

section Discipline

def ratio (i n : UInt64) : ℚ := (i.toNat : ℚ) / n.toNat

def ProgressCall.ratio? : ProgressCall → Option ℚ
  | .tick i n => some (ratio i n)
  | _ => none

/-- The ratios that are reported before the next step starts. -/
def stepRatios (calls : List ProgressCall) : List ℚ :=
  (calls.takeWhile (· ≠ .startStep)).filterMap ProgressCall.ratio?

/-- A tick is not beyond its total. -/
def ProgressCall.inside : ProgressCall → Bool
  | .tick i n => i ≤ n
  | _ => true

/-- The product of a tick is a `u64`. -/
def ProgressCall.fits : ProgressCall → Bool
  | .tick i _ => i.toNat * 4 < 2 ^ 64
  | _ => true

@[simp]
theorem stepRatios_startStep (calls : List ProgressCall) :
    stepRatios (.startStep :: calls) = [] := rfl

@[simp]
theorem stepRatios_tick (i n : UInt64) (calls : List ProgressCall) :
    stepRatios (.tick i n :: calls) = ratio i n :: stepRatios calls := rfl

@[simp]
theorem stepRatios_finish (calls : List ProgressCall) :
    stepRatios (.finish :: calls) = stepRatios calls := rfl

end Discipline

section Arithmetic

/-- The end of the part of a band that a ratio fills. -/
def filled (steps : ℕ) (r : ℚ) : ℕ := 4 * steps + ⌊4 * r⌋₊

theorem filled_mono {steps : ℕ} {r s : ℚ} (le : r ≤ s) : filled steps r ≤ filled steps s := by
  apply Nat.add_le_add_left
  apply Nat.floor_le_floor
  linarith

theorem filled_le {steps : ℕ} {r : ℚ} (le : r ≤ 1) : filled steps r ≤ 4 * (steps + 1) := by
  have part : ⌊4 * r⌋₊ ≤ 4 := by
    apply Nat.floor_le_of_le
    push_cast
    linarith
  simp only [filled]
  omega

theorem ratio_le_one {i n : UInt64} (le : i ≤ n) : ratio i n ≤ 1 := by
  apply div_le_one_of_le₀
  · exact_mod_cast UInt64.le_iff_toNat_le.mp le
  · exact Nat.cast_nonneg _

theorem inner_toNat {i n : UInt64} (fits : i.toNat * 4 < 2 ^ 64) :
    (if n = 0 then 0 else i * progressScaleU64 / n).toNat = ⌊4 * ratio i n⌋₊ := by
  have floor : ⌊4 * ratio i n⌋₊ = i.toNat * 4 / n.toNat := by
    rw [← Nat.floor_div_eq_div (K := ℚ), ratio]
    congr 1
    push_cast
    ring
  rw [floor]
  split
  · next zero => simp [zero]
  · rw [UInt64.toNat_div, UInt64.toNat_mul]
    change i.toNat * 4 % 2 ^ 64 / n.toNat = _
    rw [Nat.mod_eq_of_lt fits]

variable {progress : ScaledProgress}

theorem total_emitScaled (room : progress.outerTotal.toNat * 4 < 2 ^ 64) (k i n : UInt64) :
    (progress.emitScaled k i n).total = 4 * progress.outerTotal.toNat := by
  change (progress.outerTotal * progressScaleU64).toNat = _
  rw [UInt64.toNat_mul]
  change progress.outerTotal.toNat * 4 % 2 ^ 64 = _
  rw [Nat.mod_eq_of_lt room, Nat.mul_comm]

/-- A ratio is emitted as the part of its band that it fills. -/
theorem completed_emitScaled {k i n : UInt64} (fits : i.toNat * 4 < 2 ^ 64)
    (room : filled k.toNat (ratio i n) < 2 ^ 64) :
    (progress.emitScaled k i n).completed = filled k.toNat (ratio i n) := by
  change (k * progressScaleU64 + if n = 0 then 0 else i * progressScaleU64 / n).toNat = _
  rw [UInt64.toNat_add, inner_toNat fits, UInt64.toNat_mul]
  change (k.toNat * 4 % 2 ^ 64 + _) % 2 ^ 64 = _
  simp only [filled] at room ⊢
  omega

/-- The floor of a band. -/
theorem completed_emitScaled_zero {k : UInt64} (room : 4 * k.toNat < 2 ^ 64) :
    (progress.emitScaled k 0 1).completed = 4 * k.toNat := by
  have empty : filled k.toNat (ratio 0 1) = 4 * k.toNat := by simp [filled, ratio]
  rw [completed_emitScaled (by simp) (by rw [empty]; exact room), empty]

end Arithmetic

section Runs

variable {progress : ScaledProgress} {calls : List ProgressCall}

@[simp]
theorem outerTotal_perform (call : ProgressCall) :
    (progress.perform call).1.outerTotal = progress.outerTotal := by
  cases call <;> rfl

/-- The total does not change. -/
theorem total_of_mem_run (room : progress.outerTotal.toNat * 4 < 2 ^ 64) :
    ∀ event ∈ progress.run calls, event.total = 4 * progress.outerTotal.toNat := by
  induction calls generalizing progress with
  | nil => simp [ScaledProgress.run]
  | cons call calls ih =>
      have rest := @ih (progress.perform call).1 (by simpa using room)
      rw [ScaledProgress.run, List.forall_mem_cons]
      constructor
      · cases call with
        | startStep => exact total_emitScaled room _ _ _
        | tick i n => exact total_emitScaled room _ _ _
        | finish => exact total_emitScaled room _ _ _
      · simpa using rest

/-- Once it is finished, the bar stays full. -/
theorem completed_of_finished (room : progress.outerTotal.toNat * 4 < 2 ^ 64)
    (finished : ∀ call ∈ calls, call = .finish) :
    ∀ event ∈ progress.run calls, event.completed = 4 * progress.outerTotal.toNat := by
  induction calls with
  | nil => simp [ScaledProgress.run]
  | cons call calls ih =>
      obtain ⟨rfl, later⟩ := List.forall_mem_cons.mp finished
      rw [ScaledProgress.run, List.forall_mem_cons]
      exact ⟨completed_emitScaled_zero (by omega), ih later⟩

/-- The bar does not fall and stays between two values. -/
structure Rises (low high : ℕ) (events : List ProgressEvent) : Prop where
  bounds : ∀ event ∈ events, low ≤ event.completed ∧ event.completed ≤ high
  pairwise : (events.map ProgressEvent.completed).Pairwise (· ≤ ·)

theorem Rises.cons {low high : ℕ} {event : ProgressEvent} {events : List ProgressEvent}
    (above : low ≤ event.completed) (below : event.completed ≤ high)
    (rises : Rises event.completed high events) : Rises low high (event :: events) where
  bounds := by
    rw [List.forall_mem_cons]
    refine ⟨⟨above, below⟩, fun later member => ?_⟩
    exact ⟨above.trans (rises.bounds later member).1, (rises.bounds later member).2⟩
  pairwise := by
    rw [List.map_cons, List.pairwise_cons, List.forall_mem_map]
    exact ⟨fun later member => (rises.bounds later member).1, rises.pairwise⟩

/-- The calls that are left keep the rules, and neither the next band nor a ratio that is still to
come in this one lies under `low`. -/
structure Ready (progress : ScaledProgress) (low : ℕ) (calls : List ProgressCall) : Prop where
  room : progress.outerTotal.toNat * 4 < 2 ^ 64
  steps : progress.outerStep.toNat + calls.count .startStep ≤ progress.outerTotal.toNat
  inside : ∀ call ∈ calls, call.inside = true
  fits : ∀ call ∈ calls, call.fits = true
  rising : ∀ rest ∈ calls.tails, (stepRatios rest).Pairwise (· ≤ ·)
  last : ∀ call ∈ calls.dropWhile (· ≠ .finish), call = .finish
  started : progress.outerStep = 0 → stepRatios calls = []
  next : low ≤ 4 * progress.outerStep.toNat
  above : ∀ r ∈ stepRatios calls, low ≤ filled (progress.outerStep.toNat - 1) r

variable {low : ℕ}

theorem Ready.startStep (ready : Ready progress low (.startStep :: calls)) :
    progress.startStep.2.completed = 4 * progress.outerStep.toNat ∧
      Ready progress.startStep.1 (4 * progress.outerStep.toNat) calls := by
  have room := ready.room
  have counted : progress.outerStep.toNat + (calls.count .startStep + 1) ≤
      progress.outerTotal.toNat := by simpa using ready.steps
  have bumped : progress.startStep.1.outerStep.toNat = progress.outerStep.toNat + 1 := by
    change (progress.outerStep + 1).toNat = _
    rw [UInt64.toNat_add]
    exact Nat.mod_eq_of_lt (by simp; omega)
  constructor
  · have back : progress.outerStep + 1 - 1 = progress.outerStep := by simp
    rw [ScaledProgress.startStep, back]
    exact completed_emitScaled_zero (by omega)
  · have rising := ready.rising
    rw [List.tails_cons, List.forall_mem_cons] at rising
    refine ⟨room, ?_, (List.forall_mem_cons.mp ready.inside).2,
      (List.forall_mem_cons.mp ready.fits).2, rising.2, by simpa using ready.last, ?_, ?_, ?_⟩
    · rw [bumped]
      exact (Nat.add_right_comm _ _ _).trans_le counted
    · intro zero
      rw [zero] at bumped
      cases bumped
    · omega
    · intro r _
      rw [bumped, Nat.add_sub_cancel]
      exact Nat.le_add_right _ _

theorem Ready.tick {i n : UInt64} (ready : Ready progress low (.tick i n :: calls)) :
    low ≤ (progress.tick i n).completed ∧
      (progress.tick i n).completed ≤ 4 * progress.outerTotal.toNat ∧
      Ready progress (progress.tick i n).completed calls := by
  have room := ready.room
  have running : progress.outerStep ≠ 0 := fun zero => by simpa using ready.started zero
  have positive : 0 < progress.outerStep.toNat :=
    Nat.pos_of_ne_zero fun zero => running (UInt64.toNat_inj.mp zero)
  have steps : progress.outerStep.toNat + calls.count .startStep ≤ progress.outerTotal.toNat := by
    simpa using ready.steps
  have back : (progress.outerStep - 1).toNat = progress.outerStep.toNat - 1 :=
    UInt64.toNat_sub_of_le _ _ (UInt64.le_iff_toNat_le.mpr positive)
  obtain ⟨le, inside⟩ := List.forall_mem_cons.mp ready.inside
  obtain ⟨product, fits⟩ := List.forall_mem_cons.mp ready.fits
  have band : filled (progress.outerStep.toNat - 1) (ratio i n) ≤ 4 * progress.outerStep.toNat := by
    have ceiling : filled (progress.outerStep.toNat - 1) (ratio i n) ≤
        4 * (progress.outerStep.toNat - 1 + 1) :=
      filled_le (ratio_le_one (by simpa [ProgressCall.inside] using le))
    omega
  have here : (progress.tick i n).completed =
      filled (progress.outerStep.toNat - 1) (ratio i n) := by
    rw [ScaledProgress.tick, if_neg running, ← back]
    apply completed_emitScaled
    · simpa [ProgressCall.fits] using product
    · rw [back]
      omega
  have rising := ready.rising
  rw [List.tails_cons, List.forall_mem_cons, stepRatios_tick, List.pairwise_cons] at rising
  rw [here]
  refine ⟨ready.above _ (by simp), by omega, room, steps, inside, fits, rising.2,
    by simpa using ready.last, fun zero => absurd zero running, band, ?_⟩
  intro r member
  exact filled_mono (rising.1.1 r member)

theorem Ready.finish (ready : Ready progress low (.finish :: calls)) :
    progress.finish.completed = 4 * progress.outerTotal.toNat ∧
      Rises (4 * progress.outerTotal.toNat) (4 * progress.outerTotal.toNat)
        (progress.run calls) := by
  have room := ready.room
  have finished : ∀ call ∈ calls, call = .finish := by simpa using ready.last
  have full := completed_of_finished room finished
  refine ⟨completed_emitScaled_zero (by omega), ?_, ?_⟩
  · intro event member
    exact ⟨(full event member).ge, (full event member).le⟩
  · apply List.pairwise_of_forall_mem_list
    intro one member other member'
    obtain ⟨event, isEvent, rfl⟩ := List.mem_map.mp member
    obtain ⟨event', isEvent', rfl⟩ := List.mem_map.mp member'
    exact ((full event isEvent).trans (full event' isEvent').symm).le

theorem Ready.rises (ready : Ready progress low calls) :
    Rises low (4 * progress.outerTotal.toNat) (progress.run calls) := by
  induction calls generalizing progress low with
  | nil => exact ⟨by simp [ScaledProgress.run], List.Pairwise.nil⟩
  | cons call calls ih =>
      have next := ready.next
      have steps := ready.steps
      cases call with
      | startStep =>
          obtain ⟨here, later⟩ := ready.startStep
          apply Rises.cons
          · exact next.trans here.ge
          · exact here.le.trans (by omega)
          · rw [ScaledProgress.perform, here]
            exact ih later
      | tick i n =>
          obtain ⟨above, below, later⟩ := ready.tick
          exact Rises.cons above below (ih later)
      | finish =>
          obtain ⟨here, later⟩ := ready.finish
          apply Rises.cons
          · exact (next.trans (by omega)).trans here.ge
          · exact here.le
          · rw [ScaledProgress.perform, here]
            exact later

/-- In the beginning only the rules matter. -/
theorem ready_new (sourceId : String) (task : Task) {outerTotal : UInt64}
    (steps : calls.count .startStep ≤ outerTotal.toNat)
    (inside : ∀ call ∈ calls, call.inside = true)
    (rising : ∀ rest ∈ calls.tails, (stepRatios rest).Pairwise (· ≤ ·))
    (started : stepRatios calls = [])
    (last : ∀ call ∈ calls.dropWhile (· ≠ .finish), call = .finish)
    (room : outerTotal.toNat * 4 < 2 ^ 64) (fits : ∀ call ∈ calls, call.fits = true) :
    Ready (ScaledProgress.new sourceId task outerTotal) 0 calls where
  room := room
  steps := by simpa [ScaledProgress.new] using steps
  inside := inside
  fits := fits
  rising := rising
  last := last
  started := fun _ => started
  next := Nat.zero_le _
  above := fun _ _ => Nat.zero_le _

end Runs

section Stages

/-- A step is started and told about. -/
def stepCalls (ticks : List (UInt64 × UInt64)) : List ProgressCall :=
  .startStep :: ticks.map fun tick => .tick tick.1 tick.2

/-- The calls of a stage with its steps; in the end the bar is full. -/
def stageCalls (steps : List (List (UInt64 × UInt64))) : List ProgressCall :=
  steps.flatMap stepCalls ++ [.finish]

theorem stepRatios_ticks {calls : List ProgressCall} (fresh : stepRatios calls = [])
    (ticks : List (UInt64 × UInt64)) :
    stepRatios ((ticks.map fun tick => .tick tick.1 tick.2) ++ calls) =
      ticks.map fun tick => ratio tick.1 tick.2 := by
  induction ticks with
  | nil => exact fresh
  | cons tick ticks ih =>
      rw [List.map_cons, List.cons_append, stepRatios_tick, ih, List.map_cons]

theorem stepRatios_stageCalls (steps : List (List (UInt64 × UInt64))) :
    stepRatios (stageCalls steps) = [] := by
  cases steps <;> rfl

theorem rising_stageCalls {steps : List (List (UInt64 × UInt64))}
    (rising : ∀ ticks ∈ steps, (ticks.map fun tick => ratio tick.1 tick.2).Pairwise (· ≤ ·)) :
    ∀ rest ∈ (stageCalls steps).tails, (stepRatios rest).Pairwise (· ≤ ·) := by
  induction steps with
  | nil =>
      change ∀ rest ∈ List.tails [ProgressCall.finish], _
      rw [List.tails_cons, List.forall_mem_cons]
      exact ⟨List.Pairwise.nil, by simp [stepRatios]⟩
  | cons ticks steps ih =>
      obtain ⟨here, later⟩ := List.forall_mem_cons.mp rising
      have split : stageCalls (ticks :: steps) =
          .startStep :: ((ticks.map fun tick => .tick tick.1 tick.2) ++ stageCalls steps) := by
        simp [stageCalls, stepCalls]
      rw [split, List.tails_cons, List.forall_mem_cons]
      refine ⟨List.Pairwise.nil, ?_⟩
      clear split rising
      -- a tick is followed by the later ticks of its step
      induction ticks with
      | nil => exact ih later
      | cons tick ticks ihTicks =>
          rw [List.map_cons, List.cons_append, List.tails_cons, List.forall_mem_cons,
            stepRatios_tick, stepRatios_ticks (stepRatios_stageCalls steps)]
          exact ⟨here, ihTicks here.of_cons⟩

theorem mem_steps {steps : List (List (UInt64 × UInt64))} {call : ProgressCall}
    (member : call ∈ steps.flatMap stepCalls) :
    call = .startStep ∨ ∃ ticks ∈ steps, ∃ tick ∈ ticks, call = .tick tick.1 tick.2 := by
  obtain ⟨ticks, isStep, inStep⟩ := List.mem_flatMap.mp member
  rcases List.mem_cons.mp inStep with rfl | isTick
  · exact Or.inl rfl
  · obtain ⟨tick, inTicks, rfl⟩ := List.mem_map.mp isTick
    exact Or.inr ⟨ticks, isStep, tick, inTicks, rfl⟩

theorem count_stageCalls (steps : List (List (UInt64 × UInt64))) :
    (stageCalls steps).count .startStep = steps.length := by
  have one (ticks : List (UInt64 × UInt64)) : (stepCalls ticks).count .startStep = 1 := by
    have none : ProgressCall.startStep ∉ ticks.map fun tick => .tick tick.1 tick.2 := by simp
    rw [stepCalls, List.count_cons_self, List.count_eq_zero.mpr none]
  rw [stageCalls, List.count_append, List.count_flatMap]
  simp [Function.comp_def, one]

/-- The bar of a stage that runs as the runners do rises to its total. -/
theorem stage_rises {sourceId : String} {task : Task} {outerTotal : UInt64}
    {steps : List (List (UInt64 × UInt64))} (count : steps.length ≤ outerTotal.toNat)
    (room : outerTotal.toNat * 4 < 2 ^ 64)
    (inside : ∀ ticks ∈ steps, ∀ tick ∈ ticks, tick.1 ≤ tick.2 ∧ tick.1.toNat * 4 < 2 ^ 64)
    (rising : ∀ ticks ∈ steps, (ticks.map fun tick => ratio tick.1 tick.2).Pairwise (· ≤ ·)) :
    Rises 0 (4 * outerTotal.toNat)
      ((ScaledProgress.new sourceId task outerTotal).run (stageCalls steps)) := by
  have kept : ∀ call ∈ stageCalls steps, call.inside = true ∧ call.fits = true := by
    rw [stageCalls, List.forall_mem_append, List.forall_mem_singleton]
    refine ⟨fun call member => ?_, rfl, rfl⟩
    rcases mem_steps member with rfl | ⟨ticks, isStep, tick, inTicks, rfl⟩
    · exact ⟨rfl, rfl⟩
    · simpa [ProgressCall.inside, ProgressCall.fits] using inside ticks isStep tick inTicks
  have unfinished : ∀ call ∈ steps.flatMap stepCalls, decide (call ≠ .finish) = true := by
    intro call member
    rcases mem_steps member with rfl | ⟨ticks, isStep, tick, inTicks, rfl⟩
    · rfl
    · rfl
  have last : ∀ call ∈ (stageCalls steps).dropWhile (· ≠ .finish), call = .finish := by
    rw [stageCalls, List.dropWhile_append_of_pos unfinished]
    simp
  have ready := ready_new sourceId task ((count_stageCalls steps).trans_le count)
    (fun call member => (kept call member).1) (rising_stageCalls rising)
    (stepRatios_stageCalls steps) last room fun call member => (kept call member).2
  exact ready.rises

end Stages

section Monotone

/-- For calls in which ticks follow the start of a step and nothing follows the end, the bar never
falls and never exceeds its total, which stays the same. -/
theorem scaledProgress_monotone (sourceId : String) (task : Task) (outerTotal : UInt64)
    (calls : List ProgressCall) (steps : calls.count .startStep ≤ outerTotal.toNat)
    (inside : ∀ call ∈ calls, call.inside = true)
    (rising : ∀ rest ∈ calls.tails, (stepRatios rest).Pairwise (· ≤ ·))
    (started : stepRatios calls = [])
    (last : ∀ call ∈ calls.dropWhile (· ≠ .finish), call = .finish)
    (room : outerTotal.toNat * 4 < 2 ^ 64) (fits : ∀ call ∈ calls, call.fits = true) :
    let events := (ScaledProgress.new sourceId task outerTotal).run calls
    (events.map ProgressEvent.completed).Pairwise (· ≤ ·) ∧
      ∀ event ∈ events, event.completed ≤ event.total ∧ event.total = 4 * outerTotal.toNat := by
  intro events
  have ready := ready_new sourceId task steps inside rising started last room fits
  refine ⟨ready.rises.pairwise, fun event member => ?_⟩
  have total := total_of_mem_run ready.room event member
  exact ⟨(ready.rises.bounds event member).2.trans total.ge, total⟩

theorem scaledProgress_monotone_sample :
    let events := (ScaledProgress.new "talk" .fa 2).run
      [.startStep, .tick 1 3, .tick 2 3, .startStep, .tick 1 1, .finish]
    (events.map ProgressEvent.completed).Pairwise (· ≤ ·) ∧
      ∀ event ∈ events, event.completed ≤ event.total ∧ event.total = 8 :=
  scaledProgress_monotone "talk" .fa 2
    [.startStep, .tick 1 3, .tick 2 3, .startStep, .tick 1 1, .finish] (by decide) (by decide)
    (by decide +kernel) rfl (by decide) (by decide) (by decide)

/-- A tick in front of the first step, a step after the end, and a product that wraps. -/
theorem scaledProgress_falls :
    ((ScaledProgress.new "talk" .fa 1).run [.tick 1 1, .startStep]).map ProgressEvent.completed =
        [4, 0] ∧
      ((ScaledProgress.new "talk" .fa 2).run [.startStep, .finish, .startStep]).map
        ProgressEvent.completed = [0, 8, 4] ∧
      ((ScaledProgress.new "talk" .fa 1).run
        [.startStep, .tick (2 ^ 61) (2 ^ 62), .tick (2 ^ 62) (2 ^ 62)]).map
        ProgressEvent.completed = [0, 2, 0] := by
  decide +kernel

end Monotone

end Batchalign.Runners
