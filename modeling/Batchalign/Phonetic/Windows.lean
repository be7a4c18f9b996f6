import Batchalign.Library.Partition
import Batchalign.Phonetic.Xeus

/-!
# The windows cover the recording's units

The windows take the utterances in order, and each window reaches from its first utterance to its
last. Every unit that is no pause belongs to one window.
-/

namespace Batchalign.Phonetic

section Groups

variable {utterances : List PhoneticUtterance}

/-- A window that holds its utterances, and is short if there are several. -/
structure WindowSound (utterances : List PhoneticUtterance) (group : List ℕ)
    (first last : PhoneticUtterance) : Prop where
  isFirst : firstOf utterances group = some first
  isLast : lastOf utterances group = some last
  holds : ∀ u ∈ group, ∀ utterance ∈ utterances[u]?,
    first.startMs ≤ utterance.startMs ∧ utterance.endMs ≤ last.endMs
  short : 1 < group.length → (last.endMs : ℤ) - first.startMs ≤ 20000

/-- The groups of the first utterances. -/
structure Grouped (utterances : List PhoneticUtterance) (count : ℕ) (groups : List (List ℕ)) :
    Prop where
  flatten : groups.flatten = List.range count
  sound : ∀ group ∈ groups, group ≠ [] ∧ ∃ first last, WindowSound utterances group first last

theorem windowSound_singleton {u : ℕ} {utterance : PhoneticUtterance}
    (found : utterances[u]? = some utterance) :
    WindowSound utterances [u] utterance utterance where
  isFirst := found
  isLast := found
  holds := by
    intro other member other' isOther
    rw [List.mem_singleton.mp member, found] at isOther
    cases isOther
    exact ⟨le_rfl, le_rfl⟩
  short several := absurd several (by simp)

theorem lastOf_append {group : List ℕ} {u : ℕ} :
    lastOf utterances (group ++ [u]) = utterances[u]? := by
  rw [lastOf, List.getLast?_concat, Option.bind_some]

/-- An utterance that joins leaves the window sound. -/
theorem WindowSound.append {group : List ℕ} {first previous utterance : PhoneticUtterance} {u : ℕ}
    (sound : WindowSound utterances group first previous)
    (found : utterances[u]? = some utterance) (joined : joins first previous utterance = true) :
    WindowSound utterances (group ++ [u]) first utterance := by
  simp only [joins, Bool.and_eq_true, decide_eq_true_eq] at joined
  rcases joined with ⟨⟨⟨short, _⟩, starts⟩, ends⟩
  have startsBefore : first.startMs ≤ previous.startMs := by
    have last := sound.isLast
    rw [lastOf] at last
    rcases Option.bind_eq_some_iff.mp last with ⟨position, isLast, isPrevious⟩
    exact (sound.holds position (List.mem_of_getLast? isLast) previous isPrevious).1
  constructor
  · have isFirst := sound.isFirst
    rw [firstOf] at isFirst ⊢
    rcases Option.bind_eq_some_iff.mp isFirst with ⟨position, isHead, here⟩
    rw [List.head?_append, isHead]
    exact here
  · rw [lastOf_append]
    exact found
  · intro v member other isOther
    rcases List.mem_append.mp member with old | new
    · have bounds := sound.holds v old other isOther
      exact ⟨bounds.1, bounds.2.trans ends⟩
    · rw [List.mem_singleton.mp new, found] at isOther
      cases isOther
      exact ⟨startsBefore.trans starts, le_rfl⟩
  · exact fun _ => short

theorem grouped_new {groups : List (List ℕ)} {count : ℕ} {utterance : PhoneticUtterance}
    (grouped : Grouped utterances count groups) (found : utterances[count]? = some utterance) :
    Grouped utterances (count + 1) (groups ++ [[count]]) where
  flatten := by
    rw [List.flatten_append, grouped.flatten, List.range_succ]
    rfl
  sound := by
    refine List.forall_mem_append.mpr ⟨grouped.sound, ?_⟩
    rw [List.forall_mem_singleton]
    exact ⟨List.cons_ne_nil _ _, utterance, utterance, windowSound_singleton found⟩

/-- The next utterance joins the last window or opens one. -/
theorem grouped_step {groups : List (List ℕ)} {count : ℕ} {utterance : PhoneticUtterance}
    (grouped : Grouped utterances count groups) (found : utterances[count]? = some utterance) :
    Grouped utterances (count + 1) (groupStep utterances groups (utterance, count)) := by
  rcases List.eq_nil_or_concat' groups with rfl | ⟨front, current, rfl⟩
  · exact grouped_new grouped found
  · rcases grouped.sound current (List.mem_append_right _ List.mem_cons_self) with
      ⟨_, first, previous, sound⟩
    rw [groupStep, List.getLast?_concat]
    dsimp only
    rw [sound.isFirst, sound.isLast]
    dsimp only
    by_cases joined : joins first previous utterance = true
    · rw [if_pos joined, List.dropLast_concat]
      constructor
      · have flatten := grouped.flatten
        rw [List.flatten_append, List.flatten_singleton] at flatten ⊢
        rw [← List.append_assoc, flatten, List.range_succ]
      · refine List.forall_mem_append.mpr
          ⟨fun group member => grouped.sound group (List.mem_append_left _ member), ?_⟩
        rw [List.forall_mem_singleton]
        exact ⟨by simp, first, utterance, sound.append found joined⟩
    · rw [if_neg joined]
      exact grouped_new grouped found

theorem grouped_foldl {rest : List PhoneticUtterance} {groups : List (List ℕ)} {count : ℕ}
    (grouped : Grouped utterances count groups) (isRest : utterances.drop count = rest) :
    Grouped utterances (count + rest.length)
      ((rest.zipIdx count).foldl (groupStep utterances) groups) := by
  induction rest generalizing count groups with
  | nil => exact grouped
  | cons utterance rest ih =>
      have found : utterances[count]? = some utterance := by
        rw [← Nat.add_zero count, ← List.getElem?_drop, isRest]
        rfl
      have later := ih (grouped_step grouped found) (by
        rw [← List.drop_drop, isRest]
        rfl)
      rw [List.zipIdx_cons, List.foldl_cons, List.length_cons, ← Nat.add_assoc,
        Nat.add_right_comm]
      exact later

theorem groupUtterances_grouped (utterances : List PhoneticUtterance) :
    Grouped utterances utterances.length (groupUtterances utterances) := by
  have start : Grouped utterances 0 [] := ⟨rfl, List.forall_mem_nil _⟩
  have all := grouped_foldl start List.drop_zero
  rwa [Nat.zero_add] at all

/-- A window longer than the span, a gap and a step back each open a window. -/
example : groupUtterances [⟨0, 0, 10000, []⟩, ⟨1, 10000, 20000, []⟩, ⟨2, 20000, 21000, []⟩,
    ⟨3, 24001, 25000, []⟩, ⟨4, 23000, 24000, []⟩] = [[0, 1], [2], [3], [4]] := by
  decide

end Groups

section Owners

variable {utterances : List PhoneticUtterance}

/-- The unit at a place. -/
def unitAt (utterances : List PhoneticUtterance) (place : ℕ × ℕ) : Option PhoneticUnit :=
  utterances[place.1]?.bind (·.units[place.2]?)

theorem mem_spokenUnits {u : ℕ} {place : ℕ × ℕ} :
    place ∈ spokenUnits utterances u ↔
      place.1 = u ∧ ∃ unit, unitAt utterances place = some unit ∧ unit.pause = false := by
  rcases place with ⟨v, w⟩
  rw [spokenUnits, unitAt]
  constructor
  · intro member
    cases found : utterances[u]? with
    | none => simp [found] at member
    | some utterance =>
        rw [found] at member
        rcases List.mem_map.mp member with ⟨⟨unit, position⟩, kept, same⟩
        cases same
        rw [List.mem_filter] at kept
        refine ⟨rfl, unit, ?_, by simpa using kept.2⟩
        rw [found]
        exact List.mk_mem_zipIdx_iff_getElem?.mp kept.1
  · rintro ⟨rfl, unit, isUnit, spoken⟩
    rcases Option.bind_eq_some_iff.mp isUnit with ⟨utterance, found, inside⟩
    rw [found]
    apply List.mem_map.mpr
    refine ⟨(unit, w), ?_, rfl⟩
    exact List.mem_filter.mpr ⟨List.mk_mem_zipIdx_iff_getElem?.mpr inside, by simpa using spoken⟩

theorem spokenUnits_nodup (u : ℕ) : (spokenUnits utterances u).Nodup := by
  rw [spokenUnits]
  cases utterances[u]? with
  | none => exact List.nodup_nil
  | some utterance =>
      have positions : (utterance.units.zipIdx.map Prod.snd).Nodup := by
        rw [List.zipIdx_map_snd]
        exact List.nodup_range'
      have kept := positions.sublist
        (List.filter_sublist (p := fun item : PhoneticUnit × ℕ => ! item.1.pause) |>.map Prod.snd)
      have shown := kept.map (fun w w' same => congrArg Prod.snd same : Function.Injective (Prod.mk u))
      rwa [List.map_map] at shown

/-- All units that are no pauses, in order. -/
def allSpoken (utterances : List PhoneticUtterance) : List (ℕ × ℕ) :=
  (List.range utterances.length).flatMap (spokenUnits utterances)

theorem mem_allSpoken {place : ℕ × ℕ} :
    place ∈ allSpoken utterances ↔
      ∃ unit, unitAt utterances place = some unit ∧ unit.pause = false := by
  rw [allSpoken, List.mem_flatMap]
  constructor
  · rintro ⟨u, _, member⟩
    exact (mem_spokenUnits.mp member).2
  · rintro ⟨unit, isUnit, spoken⟩
    rcases Option.bind_eq_some_iff.mp isUnit with ⟨utterance, found, _⟩
    exact ⟨place.1, List.mem_range.mpr (List.getElem?_eq_some_iff.mp found).1,
      mem_spokenUnits.mpr ⟨rfl, unit, isUnit, spoken⟩⟩

theorem allSpoken_nodup : (allSpoken utterances).Nodup := by
  apply List.nodup_flatMap.mpr
  refine ⟨fun u _ => spokenUnits_nodup u, ?_⟩
  apply List.nodup_range.imp
  intro u v apart place inFirst inSecond
  exact apart ((mem_spokenUnits.mp inFirst).1.symm.trans (mem_spokenUnits.mp inSecond).1)

theorem jobOf_eq {group : List ℕ} {first last : PhoneticUtterance}
    (sound : WindowSound utterances group first last) :
    jobOf utterances group =
      if (group.flatMap (spokenUnits utterances)).isEmpty then none
      else some ⟨first.startMs, last.endMs, group.flatMap (spokenUnits utterances)⟩ := by
  rw [jobOf, sound.isFirst, sound.isLast]

/-- Each unit that is no pause is an owner once. -/
theorem owners_jobsOf : (jobsOf utterances).flatMap Job.owners = allSpoken utterances := by
  have grouped := groupUtterances_grouped utterances
  rw [allSpoken, ← grouped.flatten, jobsOf]
  have sound := grouped.sound
  clear grouped
  generalize groupUtterances utterances = groups at sound ⊢
  induction groups with
  | nil => rfl
  | cons group groups ih =>
      rcases List.forall_mem_cons.mp sound with ⟨⟨_, first, last, window⟩, later⟩
      rw [List.flatten_cons, List.flatMap_append, ← ih later, List.filterMap_cons,
        jobOf_eq window]
      by_cases empty : (group.flatMap (spokenUnits utterances)).isEmpty = true
      · rw [if_pos empty, List.isEmpty_iff.mp empty]
        rfl
      · rw [if_neg empty]
        rfl

end Owners

end Batchalign.Phonetic
