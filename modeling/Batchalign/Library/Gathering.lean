import Mathlib

/-!
# Gathering lists in slots

A row of slots, each with a list or with nothing. Moving the list of one slot to the end of the
nearest list in front (`join`), and gathering the lists of consecutive slots in the first of them
(`collect`), leave the elements of the row in the same order (`contents_join`,
`contents_collect`). A row whose lists start with their own position keeps that property as long
as lists are only appended to (`Anchored.join`).
-/

namespace Gathering

universe u

section Contents

variable {α : Type u}

/-- The elements of all slots in their order. -/
def contents (slots : List (Option (List α))) : List α := slots.flatMap fun slot => slot.getD []

variable {slots front back : List (Option (List α))} {slot : Option (List α)} {xs ys : List α}
  {i target source : ℕ}

@[simp]
theorem contents_append : contents (front ++ back) = contents front ++ contents back :=
  List.flatMap_append

@[simp]
theorem contents_cons : contents (slot :: back) = slot.getD [] ++ contents back := rfl

@[simp]
theorem contents_nil : contents ([] : List (Option (List α))) = [] := rfl

theorem flatten_lists : (slots.filterMap id).flatten = contents slots := by
  induction slots with
  | nil => rfl
  | cons slot slots ih =>
      cases slot with
      | none => exact ih
      | some xs =>
          have first : (some xs :: slots).filterMap id = xs :: slots.filterMap id := rfl
          rw [first, List.flatten_cons, ih]
          rfl

theorem contents_eq_nil (empty : ∀ slot ∈ slots, slot = none) : contents slots = [] := by
  induction slots with
  | nil => rfl
  | cons slot slots ih =>
      rw [contents_cons, empty slot List.mem_cons_self,
        ih fun other mem => empty other (List.mem_cons_of_mem _ mem)]
      rfl

theorem mem_contents {x : α} : x ∈ contents slots ↔ ∃ xs, some xs ∈ slots ∧ x ∈ xs := by
  unfold contents
  rw [List.mem_flatMap]
  constructor
  · rintro ⟨slot, mem, inside⟩
    cases slot with
    | none => simp at inside
    | some xs => exact ⟨xs, mem, inside⟩
  · rintro ⟨xs, mem, inside⟩
    exact ⟨some xs, mem, inside⟩

theorem contents_at (atSlot : slots[i]? = some slot) :
    contents slots =
      contents (slots.take i) ++ (slot.getD [] ++ contents (slots.drop (i + 1))) := by
  have split : slots = slots.take i ++ slot :: slots.drop (i + 1) := by
    rcases List.getElem?_eq_some_iff.mp atSlot with ⟨inside, rfl⟩
    rw [← List.drop_eq_getElem_cons inside, List.take_append_drop]
  calc contents slots = contents (slots.take i ++ slot :: slots.drop (i + 1)) := by rw [← split]
    _ = _ := by rw [contents_append, contents_cons]

theorem contents_set (inside : i < slots.length) :
    contents (slots.set i slot) =
      contents (slots.take i) ++ (slot.getD [] ++ contents (slots.drop (i + 1))) := by
  have atSlot : (slots.set i slot)[i]? = some slot := by simp [inside]
  have front : (slots.set i slot).take i = slots.take i := by
    rw [List.take_set_of_le le_rfl]
  have behind : (slots.set i slot).drop (i + 1) = slots.drop (i + 1) := by
    rw [List.drop_set_of_lt (Nat.lt_succ_self i)]
  rw [contents_at atSlot, front, behind]

/-- The first element comes from the front of some slot. -/
theorem head?_contents {x : α} (head : (contents slots).head? = some x) :
    ∃ (i : ℕ) (xs : List α), slots[i]? = some (some xs) ∧ xs.head? = some x := by
  induction slots with
  | nil => simp at head
  | cons slot slots ih =>
      cases slot with
      | none =>
          rcases ih (by simpa using head) with ⟨i, xs, atSlot, first⟩
          exact ⟨i + 1, xs, by simpa using atSlot, first⟩
      | some ys =>
          cases ys with
          | nil =>
              rcases ih (by simpa using head) with ⟨i, xs, atSlot, first⟩
              exact ⟨i + 1, xs, by simpa using atSlot, first⟩
          | cons y ys => exact ⟨0, y :: ys, rfl, by simpa using head⟩

end Contents

section Join

variable {α : Type u} {slots : List (Option (List α))} {front moved : List α} {target source : ℕ}

/-- The list of the source goes behind the one of the target. -/
def join (slots : List (Option (List α))) (target source : ℕ) (front moved : List α) :
    List (Option (List α)) :=
  (slots.set target (some (front ++ moved))).set source none

@[simp]
theorem join_length : (join slots target source front moved).length = slots.length := by
  simp [join]

/-- Over slots with nothing, a list moves to the one in front without changing the order. -/
theorem contents_join (before : target < source) (atTarget : slots[target]? = some (some front))
    (atSource : slots[source]? = some (some moved))
    (between : ∀ i, target < i → i < source → slots[i]? = some none) :
    contents (join slots target source front moved) = contents slots := by
  obtain ⟨gap, rfl⟩ : ∃ gap, source = target + 1 + gap := ⟨source - (target + 1), by omega⟩
  set rest := slots.drop (target + 1) with restDef
  have atGap : rest[gap]? = some (some moved) := by rw [restDef, List.getElem?_drop, atSource]
  have inside : target < slots.length := (List.getElem?_eq_some_iff.mp atTarget).1
  have insideGap : gap < rest.length := (List.getElem?_eq_some_iff.mp atGap).1
  have empty : contents (rest.take gap) = [] := by
    refine contents_eq_nil fun slot mem => ?_
    rcases List.getElem?_of_mem mem with ⟨k, atK⟩
    rw [List.getElem?_take] at atK
    split_ifs at atK with inGap
    rw [restDef, List.getElem?_drop, between _ (by omega) (by omega)] at atK
    exact (Option.some.inj atK).symm
  have swap : join slots target (target + 1 + gap) front moved =
      (slots.set (target + 1 + gap) none).set target (some (front ++ moved)) := by
    unfold join
    rw [List.set_comm _ _ (by omega)]
  have restSet : (slots.set (target + 1 + gap) none).drop (target + 1) = rest.set gap none := by
    rw [List.drop_set, if_neg (by omega), Nat.add_sub_cancel_left]
  have frontSet : (slots.set (target + 1 + gap) none).take target = slots.take target := by
    rw [List.take_set_of_le (by omega)]
  rw [swap, contents_set (by simpa using inside), frontSet, restSet, contents_set insideGap,
    contents_at atTarget, ← restDef, contents_at atGap, empty]
  simp

theorem contents_join_subset (atTarget : slots[target]? = some (some front))
    (atSource : slots[source]? = some (some moved)) :
    contents (join slots target source front moved) ⊆ contents slots := by
  intro x mem
  have ofSlot : ∀ {i : ℕ} {xs : List α}, slots[i]? = some (some xs) → x ∈ xs →
      x ∈ contents slots := fun here inside =>
    mem_contents.mpr ⟨_, List.mem_of_getElem? here, inside⟩
  rcases mem_contents.mp mem with ⟨xs, listed, inside⟩
  rcases List.mem_or_eq_of_mem_set listed with listed | gone
  · rcases List.mem_or_eq_of_mem_set listed with listed | joined
    · exact mem_contents.mpr ⟨xs, listed, inside⟩
    · rw [Option.some.inj joined, List.mem_append] at inside
      rcases inside with inside | inside
      · exact ofSlot atTarget inside
      · exact ofSlot atSource inside
  · cases gone

end Join

section Collect

variable {α : Type u} {slots : List (Option (List α))} {start count : ℕ}

/-- The lists of consecutive slots, gathered in the first one. -/
def collect (slots : List (Option (List α))) (start count : ℕ) : List (Option (List α)) :=
  ((slots.take start ++ List.replicate count none) ++ slots.drop (start + count)).set start
    (some (contents ((slots.drop start).take count)))

theorem contents_collect (nonempty : 0 < count) (inside : start + count ≤ slots.length) :
    contents (collect slots start count) = contents slots := by
  obtain ⟨rest, rfl⟩ : ∃ rest, count = rest + 1 := ⟨count - 1, by omega⟩
  have length : (slots.take start).length = start := by simp; omega
  have whole : slots =
      slots.take start ++
        ((slots.drop start).take (rest + 1) ++ slots.drop (start + (rest + 1))) := by
    rw [← List.drop_drop, List.take_append_drop, List.take_append_drop]
  have moved : collect slots start (rest + 1) = slots.take start ++
      (some (contents ((slots.drop start).take (rest + 1))) ::
        (List.replicate rest none ++ slots.drop (start + (rest + 1)))) := by
    unfold collect
    rw [List.append_assoc, List.set_append_right _ _ length.le, length, Nat.sub_self,
      List.replicate_succ, List.cons_append, List.set_cons_zero]
  have empty : contents (List.replicate rest (none : Option (List α))) = [] :=
    contents_eq_nil fun slot mem => List.eq_of_mem_replicate mem
  calc contents (collect slots start (rest + 1))
      = contents (slots.take start) ++ (contents ((slots.drop start).take (rest + 1)) ++
          contents (slots.drop (start + (rest + 1)))) := by
        rw [moved, contents_append, contents_cons, contents_append, empty]
        rfl
    _ = contents slots := by rw [← contents_append, ← contents_append, ← whole]

end Collect

section Filled

variable {α : Type u} {front chunk back : List (Option (List α))}

/-- How many slots have something in them. -/
def filled (slots : List (Option (List α))) : ℕ :=
  slots.countP fun slot => ! (slot.getD []).isEmpty

@[simp]
theorem filled_append : filled (front ++ back) = filled front + filled back := List.countP_append

/-- The slots of a chunk after it has been gathered. -/
def gathered (chunk : List (Option (List α))) : List (Option (List α)) :=
  some (contents chunk) :: List.replicate (chunk.length - 1) none

theorem gathered_length (nonempty : chunk ≠ []) : (gathered chunk).length = chunk.length := by
  have positive := List.length_pos_iff.mpr nonempty
  simp only [gathered, List.length_cons, List.length_replicate]
  omega

theorem collect_append (nonempty : chunk ≠ []) :
    collect (front ++ (chunk ++ back)) front.length chunk.length =
      front ++ (gathered chunk ++ back) := by
  obtain ⟨rest, isLength⟩ : ∃ rest, chunk.length = rest + 1 :=
    ⟨chunk.length - 1, by have := List.length_pos_iff.mpr nonempty; omega⟩
  have behind : (front ++ (chunk ++ back)).drop (front.length + chunk.length) = back := by
    rw [← List.append_assoc, ← List.length_append, List.drop_left]
  have middle : ((front ++ (chunk ++ back)).drop front.length).take chunk.length = chunk := by
    rw [List.drop_left, List.take_left]
  rw [collect, behind, middle, List.take_left, List.append_assoc,
    List.set_append_right _ _ le_rfl, Nat.sub_self, gathered, isLength, List.replicate_succ,
    Nat.add_sub_cancel, List.cons_append, List.set_cons_zero, List.cons_append]

/-- A gathered chunk has one slot with something in it, if it had any. -/
theorem filled_gathered : filled (gathered chunk) = if contents chunk = [] then 0 else 1 := by
  have empty : filled (List.replicate (chunk.length - 1) (none : Option (List α))) = 0 := by
    rw [filled, List.countP_eq_zero]
    intro slot member
    simp [List.eq_of_mem_replicate member]
  have first : filled [some (contents chunk)] = if contents chunk = [] then 0 else 1 := by
    by_cases none : contents chunk = []
    · simp [filled, none]
    · simp [filled, none]
  rw [gathered, ← List.singleton_append, filled_append, empty, first, Nat.add_zero]

end Filled

section Anchored

variable {slots : List (Option (List ℕ))} {front moved xs : List ℕ} {target source i : ℕ}

/-- Every list starts with its position. -/
def Anchored (slots : List (Option (List ℕ))) : Prop :=
  ∀ (i : ℕ) (xs : List ℕ), slots[i]? = some (some xs) → xs.head? = some i

theorem getElem?_join (here : (join slots target source front moved)[i]? = some (some xs)) :
    i ≠ source ∧ (i = target ∧ xs = front ++ moved ∨ i ≠ target ∧ slots[i]? = some (some xs)) := by
  unfold join at here
  rw [List.getElem?_set] at here
  split_ifs at here with atSource inside
  · simp at here
  · rw [List.getElem?_set] at here
    split_ifs at here with atTarget inside
    · simp only [Option.some.injEq] at here
      exact ⟨fun same => atSource same.symm, Or.inl ⟨atTarget.symm, here.symm⟩⟩
    · exact ⟨fun same => atSource same.symm, Or.inr ⟨fun same => atTarget same.symm, here⟩⟩

theorem Anchored.join (anchored : Anchored slots) (atTarget : slots[target]? = some (some front)) :
    Anchored (join slots target source front moved) := by
  intro i xs here
  rcases (getElem?_join here).2 with ⟨rfl, rfl⟩ | ⟨-, same⟩
  · rw [List.head?_append, anchored i front atTarget, Option.some_or]
  · exact anchored i xs same

/-- A row that starts with a position has a list there. -/
theorem Anchored.at_head (anchored : Anchored slots) (head : (contents slots).head? = some i) :
    ∃ xs, slots[i]? = some (some xs) := by
  rcases head?_contents head with ⟨j, xs, here, first⟩
  obtain rfl : j = i := Option.some.inj ((anchored j xs here).symm.trans first)
  exact ⟨xs, here⟩

/-- In front of the first element there is no list. -/
theorem Anchored.before_head (anchored : Anchored slots) (head : (contents slots).head? = some i)
    {j : ℕ} (before : j < i) : slots[j]? = some none := by
  rcases anchored.at_head head with ⟨xs, here⟩
  have inside : i < slots.length := (List.getElem?_eq_some_iff.mp here).1
  have atPlace : slots[j]? = some slots[j] := List.getElem?_eq_getElem (before.trans inside)
  cases listed : slots[j] with
  | none => rw [atPlace, listed]
  | some ys =>
      exfalso
      rw [listed] at atPlace
      have first := anchored j ys atPlace
      -- The elements of the slots up to `j` start with a position up to `j`.
      have inFront : j ∈ contents (slots.take i) := by
        have atFront : (slots.take i)[j]? = some (some ys) := by
          rw [List.getElem?_take, if_pos before, atPlace]
        exact mem_contents.mpr ⟨ys, List.mem_of_getElem? atFront, List.mem_of_head? first⟩
      cases frontHead : (contents (slots.take i)).head? with
      | none =>
          rw [List.head?_eq_none_iff.mp frontHead] at inFront
          cases inFront
      | some k =>
          have same : k = i := by
            rw [contents_at here, List.head?_append, frontHead, Option.some_or] at head
            exact Option.some.inj head
          rcases head?_contents frontHead with ⟨l, zs, atFront, frontFirst⟩
          rw [List.getElem?_take] at atFront
          split_ifs at atFront with early
          rw [anchored l zs atFront, same] at frontFirst
          exact early.ne (Option.some.inj frontFirst)

end Anchored

end Gathering
