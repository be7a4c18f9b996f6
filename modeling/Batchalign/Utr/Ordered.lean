import Batchalign.Fa.TokenCounts
import Batchalign.Utr.Slots

/-!
# The windows of the global pass

The post-pass raises a floor from utterance to utterance. Its new windows are positive and
behind everything before them as long as no floor reaches the end of the `u64` range; the
windows as a whole are ordered when there is also room before every later fixed window.
-/

namespace Batchalign.Utr

open Batchalign.Alignment Batchalign.Chat

section Pass

/-- Times are `u64`, and a matched window is not empty. -/
def Slot.Valid : Slot → Prop
  | .passed window => ∀ matched ∈ window, matched.startMs < matched.endMs
  | .fixed window => window.startMs < 2 ^ 64 ∧ window.endMs < 2 ^ 64
  | .matched window => window.startMs < window.endMs ∧ window.endMs < 2 ^ 64

def matchedCount (slots : List Slot) : ℕ := slots.countP Slot.isMatched

@[simp] theorem matchedCount_nil : matchedCount [] = 0 := rfl

@[simp] theorem matchedCount_passed (window : Option Timing) (slots : List Slot) :
    matchedCount (.passed window :: slots) = matchedCount slots :=
  List.countP_cons_of_neg (by simp [Slot.isMatched])

@[simp] theorem matchedCount_fixed (window : Timing) (slots : List Slot) :
    matchedCount (.fixed window :: slots) = matchedCount slots :=
  List.countP_cons_of_neg (by simp [Slot.isMatched])

@[simp] theorem matchedCount_matched (window : Timing) (slots : List Slot) :
    matchedCount (.matched window :: slots) = matchedCount slots + 1 :=
  List.countP_cons_of_pos rfl

/-- Every window leaves a millisecond below the limit for each matched window after it. -/
def EndsWithin (limit : ℕ) (slots : List Slot) : Prop :=
  ∀ before slot after, slots = before ++ slot :: after →
    ∀ endMs ∈ slot.endMs?, endMs + matchedCount after ≤ limit

theorem endsWithin_cons (limit : ℕ) (slot : Slot) (slots : List Slot) :
    EndsWithin limit (slot :: slots) ↔
      (∀ endMs ∈ slot.endMs?, endMs + matchedCount slots ≤ limit) ∧ EndsWithin limit slots := by
  constructor
  · intro within
    refine ⟨within [] slot slots rfl, ?_⟩
    intro before slot' after split
    exact within (slot :: before) slot' after (by rw [split, List.cons_append])
  · rintro ⟨first, rest⟩ before slot' after split
    cases before with
    | nil =>
        cases split
        exact first
    | cons _ before =>
        simp only [List.cons_append, List.cons.injEq] at split
        exact rest before slot' after split.2

/-- New windows are positive and start after the end of every window before them. -/
structure NewWindowsOrdered (windows : List (Bool × Timing)) : Prop where
  positive : ∀ window ∈ windows, window.1 = true → window.2.startMs < window.2.endMs
  afterEarlier : windows.Pairwise fun earlier later =>
    later.1 = true → earlier.2.endMs ≤ later.2.startMs

/-- The same, and new windows start after the floor. -/
def OrderedFrom (floorEndMs : ℕ) (windows : List (Bool × Timing)) : Prop :=
  NewWindowsOrdered windows ∧
    ∀ window ∈ windows, window.1 = true → floorEndMs ≤ window.2.startMs

theorem orderedFrom_fixed (floorEndMs : ℕ) (window : Timing) (windows : List (Bool × Timing)) :
    OrderedFrom floorEndMs ((false, window) :: windows) ↔
      OrderedFrom (max floorEndMs window.endMs) windows := by
  constructor
  · rintro ⟨⟨positive, after⟩, fromFloor⟩
    have positive := List.forall_mem_cons.mp positive
    have after := List.pairwise_cons.mp after
    have fromFloor := List.forall_mem_cons.mp fromFloor
    refine ⟨⟨positive.2, after.2⟩, ?_⟩
    intro later member new
    exact max_le (fromFloor.2 later member new) (after.1 later member new)
  · rintro ⟨⟨positive, after⟩, fromFloor⟩
    refine ⟨⟨?_, ?_⟩, ?_⟩
    · exact List.forall_mem_cons.mpr ⟨by simp, positive⟩
    · refine List.pairwise_cons.mpr ⟨?_, after⟩
      intro later member new
      exact (le_max_right _ _).trans (fromFloor later member new)
    · refine List.forall_mem_cons.mpr ⟨by simp, ?_⟩
      intro later member new
      exact (le_max_left _ _).trans (fromFloor later member new)

theorem orderedFrom_new (floorEndMs : ℕ) (window : Timing) (windows : List (Bool × Timing)) :
    OrderedFrom floorEndMs ((true, window) :: windows) ↔
      floorEndMs ≤ window.startMs ∧ window.startMs < window.endMs ∧
        OrderedFrom window.endMs windows := by
  constructor
  · rintro ⟨⟨positive, after⟩, fromFloor⟩
    have positive := List.forall_mem_cons.mp positive
    have after := List.pairwise_cons.mp after
    have fromFloor := List.forall_mem_cons.mp fromFloor
    exact ⟨fromFloor.1 rfl, positive.1 rfl, ⟨positive.2, after.2⟩, after.1⟩
  · rintro ⟨floor, positiveHead, ⟨positive, after⟩, fromEnd⟩
    refine ⟨⟨?_, ?_⟩, ?_⟩
    · exact List.forall_mem_cons.mpr ⟨fun _ => positiveHead, positive⟩
    · exact List.pairwise_cons.mpr ⟨fromEnd, after⟩
    · refine List.forall_mem_cons.mpr ⟨fun _ => floor, ?_⟩
      intro later member new
      have behind := fromEnd later member new
      omega

/-- A pushed window, while the floor can still rise. -/
theorem pushToFloor_of_room {floorEndMs : ℕ} {window : Timing}
    (positive : window.startMs < window.endMs) (room : floorEndMs + 1 < 2 ^ 64) :
    floorEndMs ≤ (pushToFloor floorEndMs window).startMs ∧
      (pushToFloor floorEndMs window).startMs < (pushToFloor floorEndMs window).endMs ∧
      (pushToFloor floorEndMs window).endMs = max window.endMs (floorEndMs + 1) := by
  simp only [pushToFloor, Nat.mod_eq_of_lt room]
  by_cases early : window.startMs < floorEndMs
  · rw [if_pos early]
    by_cases short : window.endMs ≤ floorEndMs
    · simp only [if_pos short]
      omega
    · simp only [if_neg short]
      omega
  · rw [if_neg early]
    omega

/-- At the last floor every window is pushed, and its end wraps round to zero. -/
theorem pushToFloor_of_full {floorEndMs : ℕ} {window : Timing}
    (positive : window.startMs < window.endMs) (inside : window.endMs < 2 ^ 64)
    (full : floorEndMs + 1 = 2 ^ 64) : pushToFloor floorEndMs window = ⟨floorEndMs, 0⟩ := by
  simp only [pushToFloor]
  rw [if_pos (by omega), if_pos (by omega), full, Nat.mod_self]

theorem floor_le_pushToFloor (floorEndMs : ℕ) (window : Timing) :
    floorEndMs ≤ (pushToFloor floorEndMs window).startMs := by
  simp only [pushToFloor]
  split
  · exact le_rfl
  · omega

/-- Every window starts at its floor or later, so positive windows are in order. -/
theorem finalWindows_orderedFrom_of_positive {floorEndMs : ℕ} {slots : List Slot}
    (positive : ∀ window ∈ finalWindows floorEndMs slots, window.1 = true →
      window.2.startMs < window.2.endMs) :
    OrderedFrom floorEndMs (finalWindows floorEndMs slots) := by
  induction slots generalizing floorEndMs with
  | nil => exact ⟨⟨by simp [finalWindows], .nil⟩, by simp [finalWindows]⟩
  | cons slot slots ih =>
      cases slot with
      | passed window => exact ih positive
      | fixed window =>
          rw [finalWindows] at positive ⊢
          rw [orderedFrom_fixed]
          exact ih (List.forall_mem_cons.mp positive).2
      | matched window =>
          rw [finalWindows] at positive ⊢
          have positive := List.forall_mem_cons.mp positive
          rw [orderedFrom_new]
          exact ⟨floor_le_pushToFloor floorEndMs window, positive.1 rfl, ih positive.2⟩

/-- The new windows are positive exactly when no floor reaches the end of the range. -/
theorem finalWindows_positive_iff_from {slots : List Slot} (valid : ∀ slot ∈ slots, slot.Valid)
    {floorEndMs : ℕ} (inside : floorEndMs < 2 ^ 64) :
    (∀ window ∈ finalWindows floorEndMs slots, window.1 = true →
        window.2.startMs < window.2.endMs) ↔
      (0 < matchedCount slots → floorEndMs + matchedCount slots < 2 ^ 64) ∧
        EndsWithin (2 ^ 64 - 1) slots := by
  induction slots generalizing floorEndMs with
  | nil =>
      refine iff_of_true (by simp [finalWindows]) ⟨by simp, ?_⟩
      intro before slot after split
      simp at split
  | cons slot slots ih =>
      have valid := List.forall_mem_cons.mp valid
      rw [endsWithin_cons]
      cases slot with
      | passed window =>
          rw [finalWindows, ih valid.2 inside]
          simp [Slot.endMs?]
      | fixed window =>
          rw [finalWindows, List.forall_mem_cons, ih valid.2 (max_lt inside valid.1.2),
            ← and_assoc, ← and_assoc]
          apply and_congr_left'
          have bound := valid.1.2
          simp only [Slot.endMs?, Option.mem_some_iff, forall_eq', matchedCount_fixed,
            Bool.false_eq_true, false_imp_iff, true_and]
          omega
      | matched window =>
          rcases valid.1 with ⟨positive, bound⟩
          rw [finalWindows, List.forall_mem_cons]
          by_cases full : floorEndMs + 1 = 2 ^ 64
          · rw [pushToFloor_of_full positive bound full]
            apply iff_of_false
            · rintro ⟨impossible, _⟩
              exact Nat.not_lt_zero _ (impossible rfl)
            · rintro ⟨room, _⟩
              simp only [matchedCount_matched] at room
              omega
          · have pushed := pushToFloor_of_room positive (show floorEndMs + 1 < 2 ^ 64 by omega)
            rw [pushed.2.2, ih valid.2 (by omega), ← and_assoc, ← and_assoc]
            apply and_congr_left'
            rw [pushed.2.2] at pushed
            simp only [Slot.endMs?, Option.mem_some_iff, forall_eq', matchedCount_matched,
              pushed.2.1, true_imp_iff, true_and]
            omega

/-- Matched windows end after zero, so the condition bounds their number. -/
theorem matchedCount_lt_of_endsWithin {slots : List Slot} (valid : ∀ slot ∈ slots, slot.Valid)
    (within : EndsWithin (2 ^ 64 - 1) slots) : matchedCount slots < 2 ^ 64 := by
  induction slots with
  | nil => simp
  | cons slot slots ih =>
      have valid := List.forall_mem_cons.mp valid
      have within := (endsWithin_cons _ _ _).mp within
      cases slot with
      | passed window => simpa using ih valid.2 within.2
      | fixed window => simpa using ih valid.2 within.2
      | matched window =>
          have room := within.1 window.endMs rfl
          have positive := valid.1.1
          rw [matchedCount_matched]
          omega

theorem finalWindows_positive_iff {slots : List Slot} (valid : ∀ slot ∈ slots, slot.Valid) :
    (∀ window ∈ finalWindows 0 slots, window.1 = true →
      window.2.startMs < window.2.endMs) ↔ EndsWithin (2 ^ 64 - 1) slots := by
  rw [finalWindows_positive_iff_from valid (by decide)]
  apply and_iff_right_of_imp
  intro within _
  rw [Nat.zero_add]
  exact matchedCount_lt_of_endsWithin valid within

theorem finalWindows_ordered_iff {slots : List Slot} (valid : ∀ slot ∈ slots, slot.Valid) :
    NewWindowsOrdered (finalWindows 0 slots) ↔ EndsWithin (2 ^ 64 - 1) slots := by
  rw [← finalWindows_positive_iff valid]
  constructor
  · intro ordered
    exact ordered.positive
  · intro positive
    exact (finalWindows_orderedFrom_of_positive positive).1

end Pass

section Room

/-- Each window starts after the one before it starts, and not before that ends. -/
def Chained (windows : List Timing) : Prop :=
  windows.IsChain fun earlier later =>
    earlier.startMs < later.startMs ∧ earlier.endMs ≤ later.startMs

/-- From an end on there is a millisecond for each matched window up to every fixed window and
up to the end of the range. -/
structure RoomAfter (endMs : ℕ) (slots : List Slot) : Prop where
  beforeFixed : ∀ between window after, slots = between ++ .fixed window :: after →
    endMs + matchedCount between ≤ window.startMs
  beforeLimit : endMs + matchedCount slots ≤ 2 ^ 64

/-- There is room after every window. -/
def LeavesRoom (slots : List Slot) : Prop :=
  ∀ before slot after, slots = before ++ slot :: after →
    ∀ endMs ∈ slot.endMs?, RoomAfter endMs after

theorem leavesRoom_cons (slot : Slot) (slots : List Slot) :
    LeavesRoom (slot :: slots) ↔
      (∀ endMs ∈ slot.endMs?, RoomAfter endMs slots) ∧ LeavesRoom slots := by
  constructor
  · intro room
    refine ⟨room [] slot slots rfl, ?_⟩
    intro before slot' after split
    exact room (slot :: before) slot' after (by rw [split, List.cons_append])
  · rintro ⟨first, rest⟩ before slot' after split
    cases before with
    | nil =>
        cases split
        exact first
    | cons _ before =>
        simp only [List.cons_append, List.cons.injEq] at split
        exact rest before slot' after split.2

theorem roomAfter_passed (endMs : ℕ) (window : Option Timing) (slots : List Slot) :
    RoomAfter endMs (.passed window :: slots) ↔ RoomAfter endMs slots := by
  constructor
  · intro room
    refine ⟨?_, by simpa using room.beforeLimit⟩
    intro between fixed after split
    simpa using room.beforeFixed (.passed window :: between) fixed after (by simp [split])
  · intro room
    refine ⟨?_, by simpa using room.beforeLimit⟩
    intro between fixed after split
    cases between with
    | nil => cases split
    | cons slot between =>
        simp only [List.cons_append, List.cons.injEq] at split
        rw [← split.1, matchedCount_passed]
        exact room.beforeFixed between fixed after split.2

theorem roomAfter_fixed (endMs : ℕ) (window : Timing) (slots : List Slot) :
    RoomAfter endMs (.fixed window :: slots) ↔
      endMs ≤ window.startMs ∧ RoomAfter endMs slots := by
  constructor
  · intro room
    refine ⟨room.beforeFixed [] window slots rfl, ?_, by simpa using room.beforeLimit⟩
    intro between fixed after split
    simpa using room.beforeFixed (.fixed window :: between) fixed after (by simp [split])
  · rintro ⟨before, room⟩
    refine ⟨?_, by simpa using room.beforeLimit⟩
    intro between fixed after split
    cases between with
    | nil =>
        cases split
        exact before
    | cons slot between =>
        simp only [List.cons_append, List.cons.injEq] at split
        rw [← split.1, matchedCount_fixed]
        exact room.beforeFixed between fixed after split.2

theorem roomAfter_matched (endMs : ℕ) (window : Timing) (slots : List Slot) :
    RoomAfter endMs (.matched window :: slots) ↔ RoomAfter (endMs + 1) slots := by
  constructor
  · intro room
    have limit := room.beforeLimit
    rw [matchedCount_matched] at limit
    refine ⟨?_, by omega⟩
    intro between fixed after split
    have before := room.beforeFixed (.matched window :: between) fixed after (by simp [split])
    rw [matchedCount_matched] at before
    omega
  · intro room
    have limit := room.beforeLimit
    refine ⟨?_, by rw [matchedCount_matched]; omega⟩
    intro between fixed after split
    cases between with
    | nil => cases split
    | cons slot between =>
        simp only [List.cons_append, List.cons.injEq] at split
        have before := room.beforeFixed between fixed after split.2
        rw [← split.1, matchedCount_matched]
        omega

theorem RoomAfter.mono {endMs endMs' : ℕ} {slots : List Slot} (room : RoomAfter endMs slots)
    (earlier : endMs' ≤ endMs) : RoomAfter endMs' slots where
  beforeFixed between window after split := by
    have before := room.beforeFixed between window after split
    omega
  beforeLimit := by
    have limit := room.beforeLimit
    omega

theorem roomAfter_max (endMs endMs' : ℕ) (slots : List Slot) :
    RoomAfter (max endMs endMs') slots ↔ RoomAfter endMs slots ∧ RoomAfter endMs' slots := by
  constructor
  · intro room
    exact ⟨room.mono (le_max_left _ _), room.mono (le_max_right _ _)⟩
  · rintro ⟨first, second⟩
    rcases le_total endMs endMs' with le | le
    · rwa [max_eq_right le]
    · rwa [max_eq_left le]

/-- At the end of the range there is no room for a window. -/
theorem roomAfter_limit_iff {slots : List Slot} (valid : ∀ slot ∈ slots, slot.Valid)
    (floorEndMs : ℕ) : RoomAfter (2 ^ 64) slots ↔ finalWindows floorEndMs slots = [] := by
  induction slots with
  | nil => exact iff_of_true ⟨by simp, by simp⟩ rfl
  | cons slot slots ih =>
      have valid := List.forall_mem_cons.mp valid
      cases slot with
      | passed window => rw [roomAfter_passed, ih valid.2, finalWindows]
      | fixed window =>
          have bound := valid.1.1
          rw [roomAfter_fixed]
          apply iff_of_false
          · rintro ⟨before, _⟩
            omega
          · simp [finalWindows]
      | matched window =>
          rw [roomAfter_matched]
          apply iff_of_false
          · intro room
            have limit := room.beforeLimit
            omega
          · simp [finalWindows]

theorem leavesRoom_of_no_windows {slots : List Slot} {floorEndMs : ℕ}
    (noWindows : finalWindows floorEndMs slots = []) : LeavesRoom slots := by
  induction slots with
  | nil =>
      intro before slot after split
      simp at split
  | cons slot slots ih =>
      cases slot with
      | passed window => exact (leavesRoom_cons _ _).mpr ⟨by simp [Slot.endMs?], ih noWindows⟩
      | fixed window => simp [finalWindows] at noWindows
      | matched window => simp [finalWindows] at noWindows

/-- With the floor at zero the first window starts inside the range. -/
theorem finalWindows_zero_head {slots : List Slot} (valid : ∀ slot ∈ slots, slot.Valid) :
    ∀ window ∈ (finalWindows 0 slots).head?, window.2.startMs < 2 ^ 64 := by
  induction slots with
  | nil => simp [finalWindows]
  | cons slot slots ih =>
      have valid := List.forall_mem_cons.mp valid
      cases slot with
      | passed window => exact ih valid.2
      | fixed window =>
          rintro _ ⟨⟩
          exact valid.1.1
      | matched window =>
          rintro _ ⟨⟩
          rcases valid.1 with ⟨positive, bound⟩
          simp only [pushToFloor, Nat.not_lt_zero, if_false]
          omega

def finalTimings (floorEndMs : ℕ) (slots : List Slot) : List Timing :=
  (finalWindows floorEndMs slots).map Prod.snd

theorem chained_cons_cons (first second : Timing) (windows : List Timing) :
    Chained (first :: second :: windows) ↔
      (first.startMs < second.startMs ∧ first.endMs ≤ second.startMs) ∧
        Chained (second :: windows) :=
  List.isChain_cons_cons

/-- A window at the very end of the range can only be the last one. -/
theorem chained_wrapped_iff {slots : List Slot} (valid : ∀ slot ∈ slots, slot.Valid)
    {startMs : ℕ} (full : startMs + 1 = 2 ^ 64) :
    Chained (⟨startMs, 0⟩ :: finalTimings 0 slots) ↔ RoomAfter (2 ^ 64) slots := by
  rw [roomAfter_limit_iff valid 0, finalTimings]
  have head := finalWindows_zero_head valid
  cases windows : finalWindows 0 slots with
  | nil => exact iff_of_true (List.isChain_singleton _) rfl
  | cons window rest =>
      have bound := head window (by rw [windows]; rfl)
      rw [List.map_cons, chained_cons_cons]
      apply iff_of_false
      · rintro ⟨⟨later, _⟩, _⟩
        simp only at later
        omega
      · simp

/-- Behind a positive window at the floor, the pass chains exactly when there is room. -/
theorem chained_iff {slots : List Slot} (valid : ∀ slot ∈ slots, slot.Valid)
    (fixedPositive : ∀ window, .fixed window ∈ slots → window.startMs < window.endMs)
    {previous : Timing} (positive : previous.startMs < previous.endMs)
    (inside : previous.endMs < 2 ^ 64) :
    Chained (previous :: finalTimings previous.endMs slots) ↔
      RoomAfter previous.endMs slots ∧ LeavesRoom slots := by
  induction slots generalizing previous with
  | nil =>
      refine iff_of_true (List.isChain_singleton _) ⟨⟨by simp, ?_⟩, ?_⟩
      · rw [matchedCount_nil]
        omega
      · exact leavesRoom_of_no_windows (show finalWindows 0 [] = [] from rfl)
  | cons slot slots ih =>
      have valid := List.forall_mem_cons.mp valid
      have fixedRest : ∀ window, .fixed window ∈ slots → window.startMs < window.endMs :=
        fun window member => fixedPositive window (List.mem_cons_of_mem _ member)
      rw [leavesRoom_cons]
      cases slot with
      | passed window =>
          rw [roomAfter_passed]
          exact (ih valid.2 fixedRest positive inside).trans (by simp [Slot.endMs?])
      | fixed window =>
          rw [roomAfter_fixed]
          change Chained (previous :: window ::
            finalTimings (max previous.endMs window.endMs) slots) ↔ _
          rw [chained_cons_cons]
          have windowPositive := fixedPositive window List.mem_cons_self
          by_cases before : previous.endMs ≤ window.startMs
          · have floor : max previous.endMs window.endMs = window.endMs := by omega
            rw [floor, ih valid.2 fixedRest windowPositive valid.1.2]
            simp only [Slot.endMs?, Option.mem_some_iff, forall_eq']
            constructor
            · rintro ⟨_, room, rest⟩
              exact ⟨⟨before, room.mono (by omega)⟩, room, rest⟩
            · rintro ⟨_, room, rest⟩
              exact ⟨⟨by omega, before⟩, room, rest⟩
          · apply iff_of_false
            · rintro ⟨⟨_, impossible⟩, _⟩
              exact before impossible
            · rintro ⟨⟨impossible, _⟩, _⟩
              exact before impossible
      | matched window =>
          rcases valid.1 with ⟨windowPositive, windowBound⟩
          rw [roomAfter_matched]
          change Chained (previous :: pushToFloor previous.endMs window ::
            finalTimings (pushToFloor previous.endMs window).endMs slots) ↔ _
          rw [chained_cons_cons]
          simp only [Slot.endMs?, Option.mem_some_iff, forall_eq']
          by_cases full : previous.endMs + 1 = 2 ^ 64
          · rw [pushToFloor_of_full windowPositive windowBound full,
              chained_wrapped_iff valid.2 full, full]
            constructor
            · rintro ⟨_, room⟩
              exact ⟨room, room.mono windowBound.le,
                leavesRoom_of_no_windows ((roomAfter_limit_iff valid.2 0).mp room)⟩
            · rintro ⟨room, _⟩
              exact ⟨⟨positive, le_rfl⟩, room⟩
          · have pushed := pushToFloor_of_room windowPositive
              (show previous.endMs + 1 < 2 ^ 64 by omega)
            rw [ih valid.2 fixedRest pushed.2.1 (by omega), pushed.2.2, roomAfter_max]
            constructor
            · rintro ⟨_, ⟨roomWindow, roomPrevious⟩, rest⟩
              exact ⟨roomPrevious, roomWindow, rest⟩
            · rintro ⟨roomPrevious, roomWindow, rest⟩
              exact ⟨⟨by omega, pushed.1⟩, ⟨roomWindow, roomPrevious⟩, rest⟩

/-- The whole pass chains exactly when there is room after every window. -/
theorem finalTimings_chained_iff {slots : List Slot} (valid : ∀ slot ∈ slots, slot.Valid)
    (fixedPositive : ∀ window, .fixed window ∈ slots → window.startMs < window.endMs) :
    Chained (finalTimings 0 slots) ↔ LeavesRoom slots := by
  induction slots with
  | nil =>
      exact iff_of_true .nil (leavesRoom_of_no_windows (show finalWindows 0 [] = [] from rfl))
  | cons slot slots ih =>
      have valid := List.forall_mem_cons.mp valid
      have fixedRest : ∀ window, .fixed window ∈ slots → window.startMs < window.endMs :=
        fun window member => fixedPositive window (List.mem_cons_of_mem _ member)
      rw [leavesRoom_cons]
      cases slot with
      | passed window => exact (ih valid.2 fixedRest).trans (by simp [Slot.endMs?])
      | fixed window =>
          have chained := chained_iff valid.2 fixedRest
            (fixedPositive window List.mem_cons_self) valid.1.2
          simp only [Slot.endMs?, Option.mem_some_iff, forall_eq']
          change Chained (window :: finalTimings (max 0 window.endMs) slots) ↔ _
          rwa [Nat.zero_max]
      | matched window =>
          have chained := chained_iff valid.2 fixedRest valid.1.1 valid.1.2
          have unpushed : pushToFloor 0 window = window := by
            simp [pushToFloor]
          simp only [Slot.endMs?, Option.mem_some_iff, forall_eq']
          change Chained (pushToFloor 0 window ::
            finalTimings (pushToFloor 0 window).endMs slots) ↔ _
          rwa [unpushed]

end Room

section Chat

theorem matchedWindow_valid {asrTokens : List AsrTimingToken} {uttRange : Option (ℕ × ℕ)}
    {window : Timing} (tokens : ∀ token ∈ asrTokens, token.endMs < 2 ^ 64)
    (matched : matchedWindow asrTokens uttRange = some window) :
    window.startMs < window.endMs ∧ window.endMs < 2 ^ 64 := by
  simp only [matchedWindow, Option.bind_eq_bind, Option.bind_eq_some_iff] at matched
  rcases matched with ⟨range, _, first, _, last, isLast, found⟩
  split at found
  · rename_i positive
    cases found
    exact ⟨positive, tokens last (List.mem_of_getElem? isLast)⟩
  · cases found

/-- Earlier bullets stay. -/
def KeepsBullets (before after : List Utterance) : Prop :=
  List.Forall₂ (fun utt utt' => utt.bullet.isSome → utt'.bullet = utt.bullet) before after

theorem keepsBullets_withHint {utts : List Utterance} {windows : List (Option Timing)}
    (lengths : windows.length = utts.length)
    (untimed : ∀ row ∈ utts.zip windows, ∀ window ∈ row.2, row.1.bullet = none) :
    KeepsBullets utts (List.zipWith withHint utts windows) := by
  induction utts generalizing windows with
  | nil =>
      rw [List.length_eq_zero_iff.mp lengths]
      exact .nil
  | cons utt utts ih =>
      cases windows with
      | nil => cases lengths
      | cons window windows =>
          simp only [List.length_cons, Nat.add_right_cancel_iff] at lengths
          have untimed := List.forall_mem_cons.mp untimed
          refine .cons ?_ (ih lengths untimed.2)
          intro timed
          cases window with
          | none => rfl
          | some window =>
              rw [untimed.1 window rfl] at timed
              cases timed

variable [Talkbank] [OverlapMarkers] [Float64] {Threshold : Type} [Similarity Threshold]

/-- The times of the bullets and of the tokens are `u64` values. -/
structure TimesInRange (chat : ChatFile) (asrTokens : List AsrTimingToken) : Prop where
  bullets : ∀ utt ∈ chat.utterances, ∀ bullet ∈ utt.bullet,
    bullet.timing.startMs < 2 ^ 64 ∧ bullet.timing.endMs < 2 ^ 64
  tokens : ∀ token ∈ asrTokens, token.startMs < 2 ^ 64 ∧ token.endMs < 2 ^ 64

theorem slotOf_valid {utt : Utterance} {window : Option Timing}
    (bullets : ∀ bullet ∈ utt.bullet,
      bullet.timing.startMs < 2 ^ 64 ∧ bullet.timing.endMs < 2 ^ 64)
    (windows : ∀ window' ∈ window, window'.startMs < window'.endMs ∧ window'.endMs < 2 ^ 64) :
    (slotOf utt window).Valid := by
  have part := slotOf_case utt window
  generalize slotOf utt window = slot at part ⊢
  cases part with
  | fixed timed _ => exact bullets _ timed
  | matched _ _ => exact windows _ rfl
  | timedOverlap _ _ | unmatched _ => simp [Slot.Valid]
  | overlap _ _ =>
      rintro _ ⟨⟩
      exact (windows _ rfl).1

theorem slotOf_eq_fixed {utt : Utterance} {window : Option Timing} {fixed : Timing}
    (isFixed : slotOf utt window = .fixed fixed) :
    ∃ bullet, utt.bullet = some bullet ∧ isOverlap utt = false ∧ bullet.timing = fixed := by
  have part := slotOf_case utt window
  rw [isFixed] at part
  cases part with
  | fixed timed apart => exact ⟨_, timed, apart, rfl⟩

theorem slots_valid {chat : ChatFile} {asrTokens : List AsrTimingToken}
    (inRange : TimesInRange chat asrTokens) (skipLazyOverlap : Bool)
    (dpMatchMode : MatchMode Threshold) :
    ∀ slot ∈ slots chat asrTokens skipLazyOverlap dpMatchMode, slot.Valid := by
  intro slot member
  rcases List.mem_iff_getElem.mp member with ⟨index, bound, rfl⟩
  simp only [slots, List.getElem_zipWith]
  apply slotOf_valid (inRange.bullets _ (List.getElem_mem _))
  intro window matched
  exact matchedWindow_valid (fun token inside => (inRange.tokens token inside).2) matched

/-- The pass keeps every bullet. Its new windows are positive and behind the windows of all
earlier non-overlap utterances exactly when every old bullet's and every matched end, with a
millisecond for each later match, stays in the `u64` range. -/
theorem runGlobalUtr_windows_iff (chat : ChatFile) (asrTokens : List AsrTimingToken)
    (skipLazyOverlap : Bool) (dpMatchMode : MatchMode Threshold)
    (inRange : TimesInRange chat asrTokens) :
    ∃ result after, runGlobalUtr chat asrTokens skipLazyOverlap dpMatchMode =
        some (result, after) ∧
      (NewWindowsOrdered (nonOverlapWindows chat.utterances after.utterances) ∧
          KeepsBullets chat.utterances after.utterances ↔
        EndsWithin (2 ^ 64 - 1) (slots chat asrTokens skipLazyOverlap dpMatchMode)) := by
  rcases runGlobalUtr_result chat asrTokens skipLazyOverlap dpMatchMode with
    ⟨result, after, ran, global⟩
  refine ⟨result, after, ran, ?_⟩
  have kept : KeepsBullets chat.utterances after.utterances := by
    rw [global.utterances]
    apply keepsBullets_withHint _ global.untimed
    rw [setWindows_length, slots_length]
  rw [and_iff_left kept, global.windows,
    finalWindows_ordered_iff (slots_valid inRange skipLazyOverlap dpMatchMode)]

/-- The bullets of the non-overlap utterances. -/
def nonOverlapTimings (utts : List Utterance) : List Timing :=
  utts.filterMap fun utt => if isOverlap utt then none else utt.bullet.map Bullet.timing

omit [Similarity Threshold] in
theorem nonOverlapTimings_withHint (utts : List Utterance) (windows : List (Option Timing)) :
    nonOverlapTimings (List.zipWith withHint utts windows) =
      (nonOverlapWindows utts (List.zipWith withHint utts windows)).map Prod.snd := by
  induction utts generalizing windows with
  | nil => rfl
  | cons utt utts ih =>
      cases windows with
      | nil => rfl
      | cons window windows =>
          have sameOverlap : isOverlap (withHint utt window) = isOverlap utt := by
            cases window <;> rfl
          rw [List.zipWith_cons_cons, nonOverlapWindows_cons, List.map_append, ← ih]
          simp only [nonOverlapTimings, List.filterMap_cons, sameOverlap]
          cases isOverlap utt with
          | true => rfl
          | false => cases (withHint utt window).bullet <;> rfl

/-- When the old windows of the non-overlap utterances are positive, all their windows are in
strict order after the pass exactly when there is room after every old and every matched
window: a millisecond for each later match, up to the next old window and to the end of the
range. -/
theorem runGlobalUtr_chained_iff (chat : ChatFile) (asrTokens : List AsrTimingToken)
    (skipLazyOverlap : Bool) (dpMatchMode : MatchMode Threshold)
    (inRange : TimesInRange chat asrTokens)
    (oldPositive : ∀ utt ∈ chat.utterances, isOverlap utt = false → ∀ bullet ∈ utt.bullet,
      bullet.timing.startMs < bullet.timing.endMs) :
    ∃ result after, runGlobalUtr chat asrTokens skipLazyOverlap dpMatchMode =
        some (result, after) ∧
      (Chained (nonOverlapTimings after.utterances) ↔
        LeavesRoom (slots chat asrTokens skipLazyOverlap dpMatchMode)) := by
  rcases runGlobalUtr_result chat asrTokens skipLazyOverlap dpMatchMode with
    ⟨result, after, ran, global⟩
  refine ⟨result, after, ran, ?_⟩
  have fixedPositive : ∀ window, .fixed window ∈
      slots chat asrTokens skipLazyOverlap dpMatchMode → window.startMs < window.endMs := by
    intro window member
    rcases List.mem_iff_getElem.mp member with ⟨index, bound, isFixed⟩
    rw [slots_eq, List.length_zipWith] at bound
    simp only [slots_eq, List.getElem_zipWith] at isFixed
    rcases slotOf_eq_fixed isFixed with ⟨bullet, timed, apart, rfl⟩
    exact oldPositive _ (List.getElem_mem (by omega)) apart bullet timed
  have timings : nonOverlapTimings after.utterances = finalTimings 0
      (slots chat asrTokens skipLazyOverlap dpMatchMode) := by
    have windows := global.windows
    rw [global.utterances] at windows ⊢
    rw [nonOverlapTimings_withHint, windows]
    rfl
  rw [timings]
  exact finalTimings_chained_iff (slots_valid inRange skipLazyOverlap dpMatchMode) fixedPositive

end Chat

section Instances

open Documented Batchalign.Fa

/-- Transcripts without overlap markers. -/
instance noMarkers : OverlapMarkers where
  extractOverlapInfo _ := ⟨[], 0, false, none⟩

/-- Three turns; the middle one has no bullet, and its tokens lie inside the first window. -/
def threeTurns (firstEnd nextStart : ℕ) : ChatFile :=
  chatOf
    [(utteranceOf [Word.simple "hello"] []).withBullet (some (.new 0 firstEnd)),
      utteranceOf [Word.simple "there"] [],
      (utteranceOf [Word.simple "friend"] []).withBullet (some (.new nextStart 2000))]

def threeTokens : List AsrTimingToken :=
  [⟨"hello", 0, 300⟩, ⟨"there", 300, 600⟩, ⟨"friend", 600, 900⟩]

abbrev runThreeTurns (firstEnd nextStart : ℕ) : Option (UtrResult × ChatFile) :=
  runGlobalUtr (threeTurns firstEnd nextStart) threeTokens false
    (.caseInsensitive : MatchMode ℚ)

theorem slots_threeTurns : slots (threeTurns 1000 1500) threeTokens false
    (.caseInsensitive : MatchMode ℚ) =
      [.fixed ⟨0, 1000⟩, .matched ⟨300, 600⟩, .fixed ⟨1500, 2000⟩] := by
  decide

theorem endsWithin_nil (limit : ℕ) : EndsWithin limit [] := by
  intro before slot after split
  simp at split

theorem roomAfter_nil {endMs : ℕ} (inside : endMs ≤ 2 ^ 64) : RoomAfter endMs [] where
  beforeFixed := by simp
  beforeLimit := inside

theorem runGlobalUtr_windows_iff_threeTurns :
    ∃ result after, runThreeTurns 1000 1500 = some (result, after) ∧
      NewWindowsOrdered
        (nonOverlapWindows (threeTurns 1000 1500).utterances after.utterances) ∧
      KeepsBullets (threeTurns 1000 1500).utterances after.utterances := by
  rcases runGlobalUtr_windows_iff (threeTurns 1000 1500) threeTokens false
    (.caseInsensitive : MatchMode ℚ) ⟨by decide, by decide⟩ with ⟨result, after, ran, ordered⟩
  refine ⟨result, after, ran, ordered.mpr ?_⟩
  rw [slots_threeTurns]
  simp [endsWithin_cons, endsWithin_nil, Slot.endMs?]

/-- Behind a bullet that ends with the range, the pushed window ends at zero. -/
theorem runGlobalUtr_wraps :
    ∃ result after, runThreeTurns (2 ^ 64 - 1) 1500 = some (result, after) ∧
      (true, ⟨2 ^ 64 - 1, 0⟩) ∈
        nonOverlapWindows (threeTurns (2 ^ 64 - 1) 1500).utterances after.utterances ∧
      ¬ NewWindowsOrdered
        (nonOverlapWindows (threeTurns (2 ^ 64 - 1) 1500).utterances after.utterances) := by
  have windows : (runThreeTurns (2 ^ 64 - 1) 1500).map (fun ran =>
      nonOverlapWindows (threeTurns (2 ^ 64 - 1) 1500).utterances ran.2.utterances) =
      some [(false, ⟨0, 2 ^ 64 - 1⟩), (true, ⟨2 ^ 64 - 1, 0⟩), (false, ⟨1500, 2000⟩)] := by
    decide +kernel
  rcases Option.map_eq_some_iff.mp windows with ⟨⟨result, after⟩, ran, windows⟩
  have wrapped : (true, ⟨2 ^ 64 - 1, 0⟩) ∈
      nonOverlapWindows (threeTurns (2 ^ 64 - 1) 1500).utterances after.utterances := by
    rw [windows]
    simp
  refine ⟨result, after, ran, wrapped, ?_⟩
  intro ordered
  exact Nat.not_lt_zero _ (ordered.positive _ wrapped rfl)

theorem runGlobalUtr_chained_iff_threeTurns :
    ∃ result after, runThreeTurns 1000 1500 = some (result, after) ∧
      Chained (nonOverlapTimings after.utterances) := by
  rcases runGlobalUtr_chained_iff (threeTurns 1000 1500) threeTokens false
    (.caseInsensitive : MatchMode ℚ) ⟨by decide, by decide⟩ (by decide) with
    ⟨result, after, ran, chained⟩
  refine ⟨result, after, ran, chained.mpr ?_⟩
  rw [slots_threeTurns]
  simp [leavesRoom_cons, roomAfter_matched, roomAfter_fixed, roomAfter_nil, Slot.endMs?,
    leavesRoom_of_no_windows (show finalWindows 0 [] = [] from rfl)]

/-- The old bullets are ordered and so are the tokens; the pushed window runs into the next
bullet. -/
theorem runGlobalUtr_overruns :
    Chained (nonOverlapTimings (threeTurns 1000 1000).utterances) ∧
      threeTokens.IsChain (fun earlier later => earlier.endMs ≤ later.startMs) ∧
      ∃ result after, runThreeTurns 1000 1000 = some (result, after) ∧
        nonOverlapTimings after.utterances = [⟨0, 1000⟩, ⟨1000, 1001⟩, ⟨1000, 2000⟩] ∧
        ¬ Chained (nonOverlapTimings after.utterances) := by
  have timings : (runThreeTurns 1000 1000).map (fun ran =>
      nonOverlapTimings ran.2.utterances) =
      some [⟨0, 1000⟩, ⟨1000, 1001⟩, ⟨1000, 2000⟩] := by
    decide
  rcases Option.map_eq_some_iff.mp timings with ⟨⟨result, after⟩, ran, timings⟩
  refine ⟨?_, by decide, result, after, ran, timings, ?_⟩
  · change List.IsChain _ [(⟨0, 1000⟩ : Timing), ⟨1000, 2000⟩]
    simp
  · rw [timings, chained_cons_cons, chained_cons_cons]
    simp

end Instances

end Batchalign.Utr
