import Mathlib

/-!
# Unbordered marks

No proper end of an unbordered list is also its beginning, so two occurrences of it in one text
are apart by its length at least (`length_le_of_shifted`). A rewriting that writes one
continuation behind every mark, whatever stood there, leaves the whole text as it was only where
the continuation stood behind every mark (`rewritten_eq_iff`): a difference behind one mark shifts
the rest of the text, and no later mark can make up for it.
-/

namespace Marks

variable {α : Type*}

def Unbordered (mark : List α) : Prop := ∀ k < mark.length, 0 < k → ¬ mark.drop k <+: mark

/-- One piece of a text: a stretch that is kept, or the mark and what stands behind it. -/
inductive Piece (α : Type*) where
  | kept (xs : List α)
  | marked (tail : List α)

def Piece.original (mark : List α) : Piece α → List α
  | .kept xs => xs
  | .marked tail => mark ++ tail

def Piece.rewritten (mark continuation : List α) : Piece α → List α
  | .kept xs => xs
  | .marked _ => mark ++ continuation

def original (mark : List α) (pieces : List (Piece α)) : List α :=
  pieces.flatMap (Piece.original mark)

def rewritten (mark continuation : List α) (pieces : List (Piece α)) : List α :=
  pieces.flatMap (Piece.rewritten mark continuation)

section Simp

variable {mark continuation xs tail : List α} {pieces : List (Piece α)}

@[simp]
theorem original_nil : original mark [] = [] := rfl

@[simp]
theorem rewritten_nil : rewritten mark continuation [] = [] := rfl

@[simp]
theorem original_kept : original mark (.kept xs :: pieces) = xs ++ original mark pieces := rfl

@[simp]
theorem rewritten_kept :
    rewritten mark continuation (.kept xs :: pieces) = xs ++ rewritten mark continuation pieces :=
  rfl

@[simp]
theorem original_marked :
    original mark (.marked tail :: pieces) = mark ++ (tail ++ original mark pieces) :=
  List.append_assoc ..

@[simp]
theorem rewritten_marked :
    rewritten mark continuation (.marked tail :: pieces) =
      mark ++ (continuation ++ rewritten mark continuation pieces) :=
  List.append_assoc ..

theorem mem_rewritten_of_kept {x : α} (member : .kept xs ∈ pieces) (inside : x ∈ xs) :
    x ∈ rewritten mark continuation pieces :=
  List.mem_flatMap.mpr ⟨_, member, inside⟩

end Simp

section Shift

variable {mark continuation shift xs ys zs : List α} {pieces : List (Piece α)}

/-- A stretch that both sides have passes the shift on to what follows. -/
theorem exists_shift_of_append (same : shift ++ (xs ++ ys) = xs ++ zs) :
    ∃ shift' : List α, shift'.length = shift.length ∧ shift' ++ ys = zs := by
  refine ⟨(shift ++ xs).drop xs.length, ?_, ?_⟩
  · rw [List.length_drop, List.length_append]
    omega
  · have dropped := congrArg (List.drop xs.length) same
    rw [List.drop_left, ← List.append_assoc, List.drop_append_of_le_length] at dropped
    · exact dropped
    · rw [List.length_append]
      omega

theorem length_le_of_shifted (unbordered : Unbordered mark) (shifted : shift ≠ [])
    (same : shift ++ (mark ++ ys) = mark ++ zs) : mark.length ≤ shift.length := by
  by_contra short
  rw [not_le] at short
  apply unbordered shift.length short (List.length_pos_iff.mpr shifted)
  have dropped := congrArg (List.drop shift.length) same
  rw [List.drop_left, List.drop_append_of_le_length short.le] at dropped
  refine List.prefix_of_prefix_length_le (?_ : _ <+: mark ++ ys) ?_ ?_
  · rw [dropped]
    exact List.prefix_append ..
  · exact List.prefix_append ..
  · rw [List.length_drop]
    omega

/-- The rewritten text cannot be behind by less than a mark. -/
theorem append_rewritten_ne (unbordered : Unbordered mark) (shifted : shift ≠ [])
    (short : shift.length < mark.length) :
    shift ++ rewritten mark continuation pieces ≠ original mark pieces := by
  intro same
  induction pieces generalizing shift with
  | nil => exact shifted (List.append_eq_nil_iff.mp same).1
  | cons piece pieces ih =>
      cases piece with
      | kept xs =>
          rw [rewritten_kept, original_kept] at same
          rcases exists_shift_of_append same with ⟨shift', sameLength, later⟩
          apply ih _ _ later
          · rwa [← List.length_pos_iff, sameLength, List.length_pos_iff]
          · rwa [sameLength]
      | marked tail =>
          rw [rewritten_marked, original_marked] at same
          exact short.not_ge (length_le_of_shifted unbordered shifted same)

/-- Nor can it be ahead. -/
theorem rewritten_ne_append (unbordered : Unbordered mark)
    (fits : continuation.length < mark.length) (shifted : shift ≠ []) :
    rewritten mark continuation pieces ≠ shift ++ original mark pieces := by
  intro same
  induction pieces generalizing shift with
  | nil => exact shifted (List.append_eq_nil_iff.mp same.symm).1
  | cons piece pieces ih =>
      cases piece with
      | kept xs =>
          rw [rewritten_kept, original_kept] at same
          rcases exists_shift_of_append same.symm with ⟨shift', sameLength, later⟩
          apply ih _ later.symm
          rwa [← List.length_pos_iff, sameLength, List.length_pos_iff]
      | marked tail =>
          rw [rewritten_marked, original_marked] at same
          have long := length_le_of_shifted unbordered shifted same.symm
          rcases exists_shift_of_append same.symm with ⟨shift', sameLength, later⟩
          -- What is ahead is longer than the continuation, so the rest is ahead of it as well.
          rw [← List.append_assoc] at later
          have ahead : continuation <+: shift' ++ tail := by
            refine List.prefix_of_prefix_length_le
              (?_ : _ <+: continuation ++ rewritten mark continuation pieces) ?_ ?_
            · exact List.prefix_append ..
            · rw [← later]
              exact List.prefix_append ..
            · rw [List.length_append]
              omega
          rcases ahead with ⟨rest, isRest⟩
          rw [← isRest, List.append_assoc, List.append_cancel_left_eq] at later
          apply ih _ later.symm
          rintro rfl
          have lengths := congrArg List.length isRest
          simp only [List.append_nil, List.length_append] at lengths
          omega

end Shift

section Rewriting

variable {mark continuation : List α}

theorem rewritten_eq_of_tails {pieces : List (Piece α)}
    (continued : ∀ tail, .marked tail ∈ pieces → tail = continuation) :
    rewritten mark continuation pieces = original mark pieces := by
  apply List.flatMap_congr
  intro piece member
  cases piece with
  | kept xs => rfl
  | marked tail =>
      rw [continued tail member]
      rfl

/-- A continuation shorter than the mark is visible in the whole text wherever it is new. -/
theorem rewritten_eq_iff (unbordered : Unbordered mark)
    (fits : continuation.length < mark.length) {pieces : List (Piece α)} :
    rewritten mark continuation pieces = original mark pieces ↔
      ∀ tail, .marked tail ∈ pieces → tail = continuation := by
  refine ⟨fun same => ?_, rewritten_eq_of_tails⟩
  induction pieces with
  | nil => simp
  | cons piece pieces ih =>
      cases piece with
      | kept xs =>
          rw [rewritten_kept, original_kept, List.append_cancel_left_eq] at same
          intro tail member
          apply ih same tail
          simpa using member
      | marked first =>
          rw [rewritten_marked, original_marked, List.append_cancel_left_eq] at same
          rcases List.append_eq_append_iff.mp same with ⟨rest, isTail, later⟩ |
            ⟨rest, isContinuation, later⟩
          · cases rest with
            | nil =>
                rw [List.append_nil] at isTail
                intro tail member
                rcases List.mem_cons.mp member with here | there
                · cases here
                  exact isTail
                · exact ih (by simpa using later) tail there
            | cons x rest =>
                exact absurd later (rewritten_ne_append unbordered fits (List.cons_ne_nil x rest))
          · cases rest with
            | nil =>
                rw [List.append_nil] at isContinuation
                intro tail member
                rcases List.mem_cons.mp member with here | there
                · cases here
                  exact isContinuation.symm
                · exact ih (by simpa using later.symm) tail there
            | cons x rest =>
                refine absurd later.symm
                  (append_rewritten_ne unbordered (List.cons_ne_nil x rest) ?_)
                rw [isContinuation, List.length_append] at fits
                omega

end Rewriting

end Marks
