import Mathlib

/-!
# Lines read while they are written

A writer ends each of its lines with a mark that no line contains. A reader that has read some
beginning of the text holds what follows the lines it has cut off. Whatever the beginnings are
that it gets to see, the next line it cuts off is the next line that was written
(`Follows.cut`), and when the text is complete none is left (`Follows.all`).
-/

namespace LineBuffer

variable {α : Type*} {mark : α} {lines : List (List α)} {line : List α}
  {count : ℕ} {text pending more : List α}

section Definitions

/-- The text of the lines, each with the mark at its end. -/
def terminated (mark : α) (lines : List (List α)) : List α :=
  lines.flatMap fun line => line ++ [mark]

/-- The first line of a text and what is left of it, if its mark is there. -/
def cut [DecidableEq α] (mark : α) (pending : List α) : Option (List α × List α) :=
  if mark ∈ pending then
    some (pending.takeWhile (· ≠ mark), (pending.dropWhile (· ≠ mark)).tail)
  else none

/-- The reader has cut off this many lines of the text it has read, and holds the rest. -/
structure Follows (mark : α) (lines : List (List α)) (count : ℕ) (text pending : List α) :
    Prop where
  inside : count ≤ lines.length
  whole : text = terminated mark (lines.take count) ++ pending

end Definitions

section Cut

theorem terminated_append (first last : List (List α)) :
    terminated mark (first ++ last) = terminated mark first ++ terminated mark last :=
  List.flatMap_append

theorem terminated_cons (line : List α) (lines : List (List α)) :
    terminated mark (line :: lines) = line ++ mark :: terminated mark lines := by
  simp [terminated]

theorem terminated_take (count : ℕ) :
    terminated mark (lines.take count) <+: terminated mark lines := by
  nth_rewrite 2 [← List.take_append_drop count lines]
  rw [terminated_append]
  exact List.prefix_append _ _

variable [DecidableEq α]

theorem cut_append_cons (unmarked : mark ∉ line) (rest : List α) :
    cut mark (line ++ mark :: rest) = some (line, rest) := by
  have other : ∀ char ∈ line, decide (char ≠ mark) = true := by
    intro char isChar
    rw [decide_eq_true_eq]
    rintro rfl
    exact unmarked isChar
  rw [cut, if_pos (by simp), List.takeWhile_append_of_pos other,
    List.dropWhile_append_of_pos other]
  simp

theorem cut_eq_none_iff : cut mark pending = none ↔ mark ∉ pending := by
  rw [cut]
  split_ifs with isMark
  · exact iff_of_false not_false (not_not_intro isMark)
  · exact iff_of_true rfl isMark

end Cut

section Follows

theorem Follows.nil (mark : α) (lines : List (List α)) : Follows mark lines 0 [] [] :=
  ⟨Nat.zero_le _, rfl⟩

/-- The reader reads on. -/
theorem Follows.read (follows : Follows mark lines count text pending) (more : List α) :
    Follows mark lines count (text ++ more) (pending ++ more) := by
  refine ⟨follows.inside, ?_⟩
  rw [follows.whole, List.append_assoc]

/-- The writer goes on with other lines. -/
theorem Follows.write (follows : Follows mark lines count text pending) (later : List (List α)) :
    Follows mark (lines ++ later) count text pending := by
  refine ⟨?_, ?_⟩
  · rw [List.length_append]
    exact follows.inside.trans (Nat.le_add_right _ _)
  · rw [List.take_append_of_le_length follows.inside]
    exact follows.whole

/-- What the reader holds is the beginning of the lines it has not cut off. -/
theorem Follows.pending_prefix (follows : Follows mark lines count text pending)
    (written : text <+: terminated mark lines) :
    pending <+: terminated mark (lines.drop count) := by
  rw [follows.whole] at written
  nth_rewrite 2 [← List.take_append_drop count lines] at written
  rw [terminated_append, List.prefix_append_right_inj] at written
  exact written

/-- The next line that is cut off is the next one that was written. -/
theorem Follows.cut [DecidableEq α] (unmarked : ∀ line ∈ lines, mark ∉ line)
    (follows : Follows mark lines count text pending) (written : text <+: terminated mark lines)
    {rest : List α} (isCut : LineBuffer.cut mark pending = some (line, rest)) :
    lines[count]? = some line ∧ Follows mark lines (count + 1) text rest := by
  have isMark : mark ∈ pending := by
    by_contra noMark
    rw [cut_eq_none_iff.mpr noMark] at isCut
    cases isCut
  have begins := follows.pending_prefix written
  cases left : lines.drop count with
  | nil =>
      rw [left] at begins
      rw [List.prefix_nil.mp begins] at isMark
      cases isMark
  | cons next later =>
      have isNext : lines[count]? = some next := by
        rw [← List.head?_drop, left, List.head?_cons]
      have noMark : mark ∉ next := unmarked next (List.mem_of_getElem? isNext)
      rw [left, terminated_cons] at begins
      rcases begins with ⟨unread, whole⟩
      -- The mark in what is held is not before the end of the next line.
      have starts : next ++ [mark] <+: pending := by
        have marked : next ++ [mark] <+: next ++ mark :: terminated mark later :=
          ⟨terminated mark later, by simp⟩
        refine List.prefix_of_prefix_length_le marked ?_ ?_
        · exact ⟨unread, whole⟩
        · by_contra short
          rw [not_le, List.length_append, List.length_singleton] at short
          have begins : pending <+: next := List.prefix_of_prefix_length_le
            ⟨unread, whole⟩ (List.prefix_append _ _) (by omega)
          exact noMark (begins.subset isMark)
      rcases starts with ⟨tail, rfl⟩
      have same : LineBuffer.cut mark (next ++ mark :: tail) = some (next, tail) :=
        cut_append_cons noMark tail
      rw [List.append_assoc, List.singleton_append, same, Option.some.injEq, Prod.mk.injEq] at isCut
      rcases isCut with ⟨rfl, rfl⟩
      refine ⟨isNext, (List.getElem?_eq_some_iff.mp isNext).1, ?_⟩
      rw [List.take_add_one, isNext, terminated_append, follows.whole]
      simp [terminated]

/-- A reader that has read everything and finds no mark has cut off every line. -/
theorem Follows.all [DecidableEq α] (follows : Follows mark lines count text pending)
    (complete : text = terminated mark lines) (isLast : LineBuffer.cut mark pending = none) :
    count = lines.length := by
  have whole : pending = terminated mark (lines.drop count) := by
    have same := follows.whole
    rw [complete] at same
    nth_rewrite 1 [← List.take_append_drop count lines] at same
    rw [terminated_append, List.append_cancel_left_eq] at same
    exact same.symm
  cases left : lines.drop count with
  | nil =>
      have length := List.drop_eq_nil_iff.mp left
      have inside := follows.inside
      omega
  | cons next later =>
      rw [cut_eq_none_iff, whole, left, terminated_cons] at isLast
      exact absurd (by simp) isLast

end Follows

end LineBuffer
