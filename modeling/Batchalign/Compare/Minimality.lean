import Batchalign.Compare.Align
import Batchalign.Library.EditDistance

/-!
# The Levenshtein alignment is minimal

The table of `levenshtein_align` holds the distances of the prefixes, read backwards so
that one more token is one more head. The traceback uses up one token on each side it
moves along, and what it emits without a match is what the entry says.

The traceback of `Align` is a recursion over the two positions, in which no index can
fall below zero. `tracebackLoop` is the loop as the source writes it, with every
subtraction and every lookup checked; it never fails.
-/

namespace Batchalign.Compare

open EditDistance (Script distance distance_cons_cons distance_nil_left distance_nil_right
  unitGap)

def AlignItem.mainIdx : AlignItem → Option ℕ
  | .matched i _ | .insert i => some i
  | .delete _ => none

def AlignItem.goldIdx : AlignItem → Option ℕ
  | .matched _ j | .delete j => some j
  | .insert _ => none

/-- The operations that are no match. -/
def differences (items : List AlignItem) : ℕ :=
  items.countP fun item => !item.isMatched

section Alignments

variable {α β : Type} {isMatch : α → β → Bool} {main : List α} {gold : List β}

variable (isMatch main gold) in
/-- The items use the first `i` main and the first `j` gold positions once each and in order,
and pair tokens that match. -/
structure AlignsUpTo (i j : ℕ) (items : List AlignItem) : Prop where
  mainOnce : items.filterMap AlignItem.mainIdx = List.range i
  goldOnce : items.filterMap AlignItem.goldIdx = List.range j
  pairs : ∀ i j, .matched i j ∈ items →
    ∃ x y, main[i]? = some x ∧ gold[j]? = some y ∧ isMatch x y = true

variable (isMatch main gold) in
/-- Every main and every gold index once, in increasing order, and only matching pairs. -/
def Aligns (items : List AlignItem) : Prop :=
  AlignsUpTo isMatch main gold main.length gold.length items

theorem alignsUpTo_nil : AlignsUpTo isMatch main gold 0 0 [] :=
  ⟨rfl, rfl, by simp⟩

theorem AlignsUpTo.matched {i j : ℕ} {items : List AlignItem} {x : α} {y : β}
    (aligns : AlignsUpTo isMatch main gold i j items) (atMain : main[i]? = some x)
    (atGold : gold[j]? = some y) (pair : isMatch x y = true) :
    AlignsUpTo isMatch main gold (i + 1) (j + 1) (items ++ [.matched i j]) := by
  refine ⟨?_, ?_, ?_⟩
  · simp [AlignItem.mainIdx, aligns.mainOnce, List.range_succ]
  · simp [AlignItem.goldIdx, aligns.goldOnce, List.range_succ]
  · intro i' j' member
    rcases List.mem_append.mp member with member | member
    · exact aligns.pairs i' j' member
    · simp only [List.mem_singleton, AlignItem.matched.injEq] at member
      rcases member with ⟨rfl, rfl⟩
      exact ⟨x, y, atMain, atGold, pair⟩

theorem AlignsUpTo.insert {i j : ℕ} {items : List AlignItem}
    (aligns : AlignsUpTo isMatch main gold i j items) :
    AlignsUpTo isMatch main gold (i + 1) j (items ++ [.insert i]) := by
  refine ⟨?_, ?_, ?_⟩
  · simp [AlignItem.mainIdx, aligns.mainOnce, List.range_succ]
  · simp [AlignItem.goldIdx, aligns.goldOnce]
  · intro i' j' member
    exact aligns.pairs i' j' (by simpa using member)

theorem AlignsUpTo.delete {i j : ℕ} {items : List AlignItem}
    (aligns : AlignsUpTo isMatch main gold i j items) :
    AlignsUpTo isMatch main gold i (j + 1) (items ++ [.delete j]) := by
  refine ⟨?_, ?_, ?_⟩
  · simp [AlignItem.mainIdx, aligns.mainOnce]
  · simp [AlignItem.goldIdx, aligns.goldOnce, List.range_succ]
  · intro i' j' member
    exact aligns.pairs i' j' (by simpa using member)

theorem range_eq_append_singleton {n i : ℕ} {front : List ℕ}
    (range : front ++ [i] = List.range n) : n = i + 1 ∧ front = List.range i := by
  cases n with
  | zero => simp at range
  | succ n =>
      rw [List.range_succ] at range
      rcases List.append_inj' range rfl with ⟨fronts, lasts⟩
      simp only [List.cons.injEq, and_true] at lasts
      subst lasts
      exact ⟨rfl, fronts⟩

theorem take_succ_of_getElem? {γ : Type} {xs : List γ} {x : γ} {k : ℕ}
    (found : xs[k]? = some x) : xs.take (k + 1) = xs.take k ++ [x] := by
  rcases List.getElem?_eq_some_iff.mp found with ⟨bound, rfl⟩
  exact List.take_succ_eq_append_getElem bound

/-- Any alignment is an edit script that costs its differences. -/
theorem AlignsUpTo.script {i j : ℕ} {items : List AlignItem}
    (aligns : AlignsUpTo isMatch main gold i j items) (mainBound : i ≤ main.length)
    (goldBound : j ≤ gold.length) :
    Script unitGap isMatch (main.take i) (gold.take j) (differences items) := by
  induction items using List.reverseRecOn generalizing i j with
  | nil =>
      have noMain : i = 0 := by simpa using congrArg List.length aligns.mainOnce.symm
      have noGold : j = 0 := by simpa using congrArg List.length aligns.goldOnce.symm
      subst noMain noGold
      simpa [differences] using Script.nil
  | append_singleton items item ih =>
      rcases aligns with ⟨mainOnce, goldOnce, pairs⟩
      have earlier : ∀ i j, .matched i j ∈ items →
          ∃ x y, main[i]? = some x ∧ gold[j]? = some y ∧ isMatch x y = true := by
        intro i j member
        exact pairs i j (List.mem_append_left _ member)
      cases item with
      | matched i' j' =>
          simp only [List.filterMap_append, List.filterMap_cons, List.filterMap_nil,
            AlignItem.mainIdx, AlignItem.goldIdx] at mainOnce goldOnce
          rcases range_eq_append_singleton mainOnce with ⟨rfl, mainFront⟩
          rcases range_eq_append_singleton goldOnce with ⟨rfl, goldFront⟩
          rcases pairs i' j' (by simp) with ⟨x, y, atMain, atGold, pair⟩
          have script := (ih ⟨mainFront, goldFront, earlier⟩ (by omega) (by omega)).append
            (Script.nil.keep pair)
          rw [take_succ_of_getElem? atMain, take_succ_of_getElem? atGold]
          simpa [differences, AlignItem.isMatched] using script
      | insert i' =>
          simp only [List.filterMap_append, List.filterMap_cons, List.filterMap_nil,
            AlignItem.mainIdx, AlignItem.goldIdx, List.append_nil] at mainOnce goldOnce
          rcases range_eq_append_singleton mainOnce with ⟨rfl, mainFront⟩
          have atMain : main[i']? = some main[i'] := List.getElem?_eq_getElem (by omega)
          have script := (ih ⟨mainFront, goldOnce, earlier⟩ (by omega) goldBound).append
            (Script.nil.drop (x := main[i']))
          rw [take_succ_of_getElem? atMain]
          simpa [differences, AlignItem.isMatched, unitGap] using script
      | delete j' =>
          simp only [List.filterMap_append, List.filterMap_cons, List.filterMap_nil,
            AlignItem.mainIdx, AlignItem.goldIdx, List.append_nil] at mainOnce goldOnce
          rcases range_eq_append_singleton goldOnce with ⟨rfl, goldFront⟩
          have atGold : gold[j']? = some gold[j'] := List.getElem?_eq_getElem (by omega)
          have script := (ih ⟨mainOnce, goldFront, earlier⟩ mainBound (by omega)).append
            (Script.nil.insert (y := gold[j']))
          rw [take_succ_of_getElem? atGold]
          simpa [differences, AlignItem.isMatched, unitGap] using script

theorem Aligns.distance_le {items : List AlignItem} (aligns : Aligns isMatch main gold items) :
    distance unitGap isMatch main gold ≤ differences items := by
  have script := AlignsUpTo.script aligns le_rfl le_rfl
  rw [List.take_length, List.take_length] at script
  exact script.distance_le

end Alignments

section Table

variable {α β : Type} (isMatch : α → β → Bool)

/-- The distances from the main tokens `seen` to the gold tokens `front` and to these with
more and more of the tokens that follow them, all last token first. -/
def distanceRow (seen : List α) : List β → List β → List ℕ
  | front, [] => [distance unitGap isMatch seen front]
  | front, y :: gold =>
      distance unitGap isMatch seen front :: distanceRow seen (y :: front) gold

theorem distanceRow_getElem? (seen : List α) (front gold : List β) {j : ℕ}
    (bound : j ≤ gold.length) :
    (distanceRow isMatch seen front gold)[j]? =
      some (distance unitGap isMatch seen ((gold.take j).reverse ++ front)) := by
  induction gold generalizing front j with
  | nil =>
      have first : j = 0 := by simpa using bound
      subst first
      simp [distanceRow]
  | cons y gold ih =>
      cases j with
      | zero => simp [distanceRow]
      | succ j =>
          have inside : j ≤ gold.length := by simpa using bound
          simp [distanceRow, ih (y :: front) inside]

theorem distanceRow_nil (front gold : List β) :
    distanceRow isMatch [] front gold =
      (List.range (gold.length + 1)).map fun j => front.length + j := by
  induction gold generalizing front with
  | nil => simp [distanceRow, unitGap]
  | cons y gold ih =>
      rw [distanceRow, ih, distance_nil_left]
      simp only [List.length_cons]
      rw [@List.range_succ_eq_map (gold.length + 1)]
      simp only [unitGap, Nat.mul_one, List.map_cons, Nat.add_zero, List.map_map]
      congr 1
      apply List.map_congr_left
      intro j _
      simp only [Function.comp_apply]
      omega

theorem rowEntries_eq (x : α) (seen : List α) (front gold : List β) :
    distance unitGap isMatch (x :: seen) front ::
        rowEntries isMatch x gold (distanceRow isMatch seen front gold)
          (distance unitGap isMatch (x :: seen) front) =
      distanceRow isMatch (x :: seen) front gold := by
  induction gold generalizing front with
  | nil => simp [rowEntries, distanceRow]
  | cons y gold ih =>
      have entry : min (min
            (distance unitGap isMatch seen front + Compare.pairCost isMatch x y)
            (distance unitGap isMatch (x :: seen) front + 1))
            (distance unitGap isMatch seen (y :: front) + 1) =
          distance unitGap isMatch (x :: seen) (y :: front) := by
        rw [distance_cons_cons, min_right_comm]
        rfl
      have split : ∃ rest, distanceRow isMatch seen (y :: front) gold =
          distance unitGap isMatch seen (y :: front) :: rest := by
        cases gold with
        | nil => exact ⟨_, rfl⟩
        | cons y' gold => exact ⟨_, rfl⟩
      rcases split with ⟨rest, row⟩
      rw [distanceRow, distanceRow, row, rowEntries, entry, ← row, ih]

theorem tableRows_getElem? (gold : List β) (main seen : List α) {k : ℕ}
    (bound : k ≤ main.length) :
    (distanceRow isMatch seen [] gold ::
        tableRows isMatch gold main seen.length (distanceRow isMatch seen [] gold))[k]? =
      some (distanceRow isMatch ((main.take k).reverse ++ seen) [] gold) := by
  induction main generalizing seen k with
  | nil =>
      have first : k = 0 := by simpa using bound
      subst first
      simp
  | cons x main ih =>
      cases k with
      | zero => simp
      | succ k =>
          have inside : k ≤ main.length := by simpa using bound
          have row : (seen.length + 1) ::
                rowEntries isMatch x gold (distanceRow isMatch seen [] gold) (seen.length + 1) =
              distanceRow isMatch (x :: seen) [] gold := by
            have entries := rowEntries_eq isMatch x seen [] gold
            rw [distance_nil_right] at entries
            simpa [unitGap] using entries
          simp only [tableRows, List.getElem?_cons_succ, row]
          rw [← List.length_cons, ih (x :: seen) inside]
          simp

/-- The distance between the first `i` main and the first `j` gold tokens. -/
def tokensDistance (main : List α) (gold : List β) (i j : ℕ) : ℕ :=
  distance unitGap isMatch (main.take i).reverse (gold.take j).reverse

/-- The entry at `(i, j)`, if the table has one. -/
def entryAt (table : List (List ℕ)) (i j : ℕ) : Option ℕ :=
  table[i]?.bind fun row => row[j]?

theorem entryAt_costTable {main : List α} {gold : List β} {i j : ℕ}
    (mainBound : i ≤ main.length) (goldBound : j ≤ gold.length) :
    entryAt (costTable isMatch main gold) i j = some (tokensDistance isMatch main gold i j) := by
  have first : List.range (gold.length + 1) = distanceRow isMatch [] [] gold := by
    rw [distanceRow_nil]
    simp
  have row := tableRows_getElem? isMatch gold main [] mainBound
  rw [List.length_nil, List.append_nil] at row
  rw [entryAt, costTable, first, row, Option.bind_some,
    distanceRow_getElem? isMatch _ _ _ goldBound, List.append_nil, tokensDistance]

end Table

section Traceback

variable {α β : Type} (isMatch : α → β → Bool) (main : List α) (gold : List β)

/-- `i - 1` on an unsigned integer. -/
def checkedPred : ℕ → Option ℕ
  | 0 => none
  | i + 1 => some i

/-- The first branch of the loop, `some none` where it is not taken. -/
def diagonalStep (dp : List (List ℕ)) (i j : ℕ) :
    Option (Option (List AlignItem × ℕ × ℕ)) := do
  if 0 < i ∧ 0 < j then
    let ii ← checkedPred i
    let jj ← checkedPred j
    let x ← main[ii]?
    let y ← gold[jj]?
    let entry ← entryAt dp i j
    let diagonal ← entryAt dp ii jj
    if entry = diagonal + pairCost isMatch x y then
      if isMatch x y then return some ([.matched ii jj], ii, jj)
      else return some ([.insert ii, .delete jj], ii, jj)
    else return none
  else return none

/-- The condition of the second branch. -/
def isDeletion (dp : List (List ℕ)) (i j : ℕ) : Option Bool := do
  if 0 < j then
    if i = 0 then return true
    else
      let jj ← checkedPred j
      let entry ← entryAt dp i j
      let left ← entryAt dp i jj
      return decide (entry = left + 1)
  else return false

/-- One round of the loop: what is pushed, and the next position. -/
def tracebackStep (dp : List (List ℕ)) (i j : ℕ) : Option (List AlignItem × ℕ × ℕ) := do
  let diagonal ← diagonalStep isMatch main gold dp i j
  match diagonal with
  | some step => return step
  | none =>
      let deletes ← isDeletion dp i j
      if deletes then
        let jj ← checkedPred j
        return ([.delete jj], i, jj)
      else
        let ii ← checkedPred i
        return ([.insert ii], ii, j)

/-- The loop; `none` when an index falls below zero or misses the table or the tokens, or
when the fuel runs out. -/
def tracebackLoop (dp : List (List ℕ)) : ℕ → ℕ → ℕ → Option (List AlignItem)
  | fuel, i, j =>
      if 0 < i ∨ 0 < j then
        match fuel with
        | 0 => none
        | fuel + 1 => do
            let (pushed, i, j) ← tracebackStep isMatch main gold dp i j
            let out ← tracebackLoop dp fuel i j
            return pushed ++ out
      else some []

/-- `levenshtein_align` with the loop of the source. -/
def levenshteinAlignChecked : Option (List AlignItem) :=
  if main.isEmpty then some ((List.range gold.length).map .delete)
  else if gold.isEmpty then some ((List.range main.length).map .insert)
  else
    (tracebackLoop isMatch main gold (costTable isMatch main gold) (main.length + gold.length)
      main.length gold.length).map List.reverse

variable {isMatch main gold}

section Distances

variable {i j : ℕ} {x : α} {y : β}

theorem tokensDistance_zero_left : tokensDistance isMatch main gold 0 j = min j gold.length := by
  simp [tokensDistance, unitGap]

theorem tokensDistance_zero_right : tokensDistance isMatch main gold i 0 = min i main.length := by
  simp [tokensDistance, unitGap]

theorem tokensDistance_succ (atMain : main[i]? = some x) (atGold : gold[j]? = some y) :
    tokensDistance isMatch main gold (i + 1) (j + 1) =
      min (min (tokensDistance isMatch main gold i j + pairCost isMatch x y)
        (tokensDistance isMatch main gold i (j + 1) + 1))
        (tokensDistance isMatch main gold (i + 1) j + 1) := by
  simp only [tokensDistance, take_succ_of_getElem? atMain, take_succ_of_getElem? atGold,
    List.reverse_concat, distance_cons_cons]
  rfl

end Distances

variable (isMatch main gold) in
/-- The recursion reads the table of distances and compares the tokens. -/
structure ReadsTable (dp : ℕ → ℕ → ℕ) (isPair : ℕ → ℕ → Bool) : Prop where
  entries : ∀ i j, i ≤ main.length → j ≤ gold.length →
    dp i j = tokensDistance isMatch main gold i j
  compared : ∀ i j x y, main[i]? = some x → gold[j]? = some y → isPair i j = isMatch x y

variable {dp : ℕ → ℕ → ℕ} {isPair : ℕ → ℕ → Bool}

@[simp]
theorem differences_reverse (items : List AlignItem) :
    differences items.reverse = differences items := by
  simp [differences]

/-- From any entry the items align the two prefixes, with as many differences as the entry
says. -/
theorem traceback_aligns (reads : ReadsTable isMatch main gold dp isPair) (i j : ℕ)
    (mainBound : i ≤ main.length) (goldBound : j ≤ gold.length) :
    AlignsUpTo isMatch main gold i j (traceback dp isPair i j).reverse ∧
      differences (traceback dp isPair i j) = tokensDistance isMatch main gold i j := by
  fun_induction traceback dp isPair i j with
  | case1 => exact ⟨alignsUpTo_nil, by simp [differences, tokensDistance_zero_left]⟩
  | case2 j ih =>
      rcases ih mainBound (by omega) with ⟨aligns, counted⟩
      rw [tokensDistance_zero_left] at counted ⊢
      rw [List.reverse_cons]
      refine ⟨aligns.delete, ?_⟩
      simp only [differences, List.countP_cons, AlignItem.isMatched] at counted ⊢
      simp only [Bool.not_false, if_true]
      omega
  | case3 i ih =>
      rcases ih (by omega) goldBound with ⟨aligns, counted⟩
      rw [tokensDistance_zero_right] at counted ⊢
      rw [List.reverse_cons]
      refine ⟨aligns.insert, ?_⟩
      simp only [differences, List.countP_cons, AlignItem.isMatched] at counted ⊢
      simp only [Bool.not_false, if_true]
      omega
  | case4 i j diagonal paired ih =>
      -- a match
      have atMain : main[i]? = some main[i] := List.getElem?_eq_getElem (by omega)
      have atGold : gold[j]? = some gold[j] := List.getElem?_eq_getElem (by omega)
      rcases ih (by omega) (by omega) with ⟨aligns, counted⟩
      rw [List.reverse_cons]
      rw [reads.compared i j _ _ atMain atGold] at paired
      refine ⟨aligns.matched atMain atGold paired, ?_⟩
      rw [reads.entries _ _ mainBound goldBound, reads.entries i j (by omega) (by omega),
        reads.compared i j _ _ atMain atGold, dif_pos paired] at diagonal
      rw [diagonal, ← counted]
      simp [differences, AlignItem.isMatched]
  | case5 i j diagonal unpaired ih =>
      -- a substitution, which is two differences
      rcases ih (by omega) (by omega) with ⟨aligns, counted⟩
      rw [List.reverse_cons, List.reverse_cons]
      refine ⟨aligns.delete.insert, ?_⟩
      rw [reads.entries _ _ mainBound goldBound, reads.entries i j (by omega) (by omega),
        dif_neg unpaired] at diagonal
      rw [diagonal, ← counted]
      simp [differences, AlignItem.isMatched, subCost]
  | case6 i j _ left ih =>
      rcases ih mainBound (by omega) with ⟨aligns, counted⟩
      rw [List.reverse_cons]
      refine ⟨aligns.delete, ?_⟩
      rw [reads.entries _ _ mainBound goldBound, reads.entries (i + 1) j mainBound (by omega)]
        at left
      rw [left, ← counted]
      simp [differences, AlignItem.isMatched]
  | case7 i j offDiagonal notLeft ih =>
      -- the entry above is all that is left
      simp only [Nat.succ_eq_add_one] at mainBound goldBound offDiagonal notLeft ⊢
      have atMain : main[i]? = some main[i] := List.getElem?_eq_getElem (by omega)
      have atGold : gold[j]? = some gold[j] := List.getElem?_eq_getElem (by omega)
      rcases ih (by omega) goldBound with ⟨aligns, counted⟩
      rw [List.reverse_cons]
      refine ⟨aligns.insert, ?_⟩
      rw [reads.entries _ _ mainBound goldBound, reads.entries i j (by omega) (by omega),
        reads.compared i j _ _ atMain atGold, dite_eq_ite] at offDiagonal
      rw [reads.entries _ _ mainBound goldBound, reads.entries (i + 1) j mainBound (by omega)]
        at notLeft
      have recurrence : tokensDistance isMatch main gold (i + 1) (j + 1) = _ :=
        tokensDistance_succ atMain atGold
      rw [pairCost] at recurrence
      have above : tokensDistance isMatch main gold (i + 1) (j + 1) =
          tokensDistance isMatch main gold i (j + 1) + 1 := by
        omega
      rw [above, ← counted]
      simp [differences, AlignItem.isMatched]

section Loop

variable {i j : ℕ}

theorem tracebackStep_first_row (table : List (List ℕ)) (j : ℕ) :
    tracebackStep isMatch main gold table 0 (j + 1) = some ([.delete j], 0, j) := by
  simp [tracebackStep, diagonalStep, isDeletion, checkedPred]

theorem tracebackStep_first_column (table : List (List ℕ)) (i : ℕ) :
    tracebackStep isMatch main gold table (i + 1) 0 = some ([.insert i], i, 0) := by
  simp [tracebackStep, diagonalStep, isDeletion, checkedPred]

/-- Off the borders every subtraction and every lookup succeeds. -/
theorem tracebackStep_inside (reads : ReadsTable isMatch main gold dp isPair)
    (mainBound : i + 1 ≤ main.length) (goldBound : j + 1 ≤ gold.length) :
    tracebackStep isMatch main gold (costTable isMatch main gold) (i + 1) (j + 1) =
      some (if dp (i + 1) (j + 1) = dp i j + (if isPair i j then 0 else subCost) then
          if isPair i j then ([.matched i j], i, j) else ([.insert i, .delete j], i, j)
        else if dp (i + 1) (j + 1) = dp (i + 1) j + 1 then ([.delete j], i + 1, j)
        else ([.insert i], i, j + 1)) := by
  have atMain : main[i]? = some main[i] := List.getElem?_eq_getElem mainBound
  have atGold : gold[j]? = some gold[j] := List.getElem?_eq_getElem goldBound
  have entry :
      entryAt (costTable isMatch main gold) (i + 1) (j + 1) = some (dp (i + 1) (j + 1)) := by
    rw [entryAt_costTable isMatch mainBound goldBound, reads.entries _ _ mainBound goldBound]
  have diagonal : entryAt (costTable isMatch main gold) i j = some (dp i j) := by
    rw [entryAt_costTable isMatch (by omega) (by omega), reads.entries _ _ (by omega) (by omega)]
  have left : entryAt (costTable isMatch main gold) (i + 1) j = some (dp (i + 1) j) := by
    rw [entryAt_costTable isMatch mainBound (by omega), reads.entries _ _ mainBound (by omega)]
  simp only [tracebackStep, diagonalStep, isDeletion, checkedPred, atMain, atGold, entry, diagonal,
    left, pairCost, reads.compared i j _ _ atMain atGold, Option.bind_eq_bind, Option.bind_some]
  by_cases onDiagonal :
      dp (i + 1) (j + 1) = dp i j + (if isMatch main[i] gold[j] then 0 else subCost)
  · by_cases pair : isMatch main[i] gold[j] = true <;> simp [onDiagonal, pair]
  · simp only [onDiagonal, if_false]
    by_cases fromLeft : dp (i + 1) (j + 1) = dp (i + 1) j + 1 <;> simp [fromLeft]

end Loop

theorem tracebackLoop_step {table : List (List ℕ)} {fuel i j i' j' : ℕ}
    {pushed out : List AlignItem} (moving : 0 < i ∨ 0 < j)
    (step : tracebackStep isMatch main gold table i j = some (pushed, i', j'))
    (rest : tracebackLoop isMatch main gold table fuel i' j' = some out) :
    tracebackLoop isMatch main gold table (fuel + 1) i j = some (pushed ++ out) := by
  rw [tracebackLoop, if_pos moving]
  simp [step, rest]

/-- With enough fuel the loop of the source runs through and pushes what the recursion
does. -/
theorem tracebackLoop_eq (reads : ReadsTable isMatch main gold dp isPair) (i j fuel : ℕ)
    (mainBound : i ≤ main.length) (goldBound : j ≤ gold.length) (enough : i + j ≤ fuel) :
    tracebackLoop isMatch main gold (costTable isMatch main gold) fuel i j =
      some (traceback dp isPair i j) := by
  induction fuel generalizing i j with
  | zero =>
      have start : i = 0 ∧ j = 0 := by omega
      rcases start with ⟨rfl, rfl⟩
      simp [tracebackLoop, traceback]
  | succ fuel ih =>
      cases i with
      | zero =>
          cases j with
          | zero => simp [tracebackLoop, traceback]
          | succ j =>
              rw [traceback]
              exact tracebackLoop_step (by omega) (tracebackStep_first_row _ j)
                (ih 0 j (by omega) (by omega) (by omega))
      | succ i =>
          cases j with
          | zero =>
              rw [traceback]
              exact tracebackLoop_step (by omega) (tracebackStep_first_column _ i)
                (ih i 0 (by omega) (by omega) (by omega))
          | succ j =>
              have step := tracebackStep_inside reads mainBound goldBound
              rw [traceback]
              by_cases onDiagonal :
                  dp (i + 1) (j + 1) = dp i j + (if isPair i j then 0 else subCost)
              · rw [if_pos onDiagonal] at step ⊢
                have rest := ih i j (by omega) (by omega) (by omega)
                by_cases pair : isPair i j = true
                · rw [if_pos pair] at step ⊢
                  exact tracebackLoop_step (by omega) step rest
                · rw [if_neg pair] at step ⊢
                  exact tracebackLoop_step (by omega) step rest
              · rw [if_neg onDiagonal] at step ⊢
                by_cases fromLeft : dp (i + 1) (j + 1) = dp (i + 1) j + 1
                · rw [if_pos fromLeft] at step ⊢
                  exact tracebackLoop_step (by omega) step
                    (ih (i + 1) j (by omega) (by omega) (by omega))
                · rw [if_neg fromLeft] at step ⊢
                  exact tracebackLoop_step (by omega) step
                    (ih i (j + 1) (by omega) (by omega) (by omega))

end Traceback

section Whole

variable {α β : Type} (isMatch : α → β → Bool) (main : List α) (gold : List β)

/-- What `levenshteinAlign` hands to the recursion. -/
theorem readsTable_costTable :
    ReadsTable isMatch main gold (fun i j => ((costTable isMatch main gold).getD i []).getD j 0)
      (fun i j =>
        match main[i]?, gold[j]? with
        | some x, some y => isMatch x y
        | _, _ => false) := by
  constructor
  · intro i j mainBound goldBound
    have entry := entryAt_costTable isMatch mainBound goldBound
    rcases Option.bind_eq_some_iff.mp entry with ⟨row, atRow, atEntry⟩
    simp [List.getD, atRow, atEntry]
  · intro i j x y atMain atGold
    simp [atMain, atGold]

theorem aligns_delete_all :
    Aligns isMatch ([] : List α) gold ((List.range gold.length).map .delete) := by
  refine ⟨?_, ?_, ?_⟩
  · simp [List.filterMap_map, Function.comp_def, AlignItem.mainIdx]
  · simp [List.filterMap_map, Function.comp_def, AlignItem.goldIdx]
  · simp

theorem aligns_insert_all :
    Aligns isMatch main ([] : List β) ((List.range main.length).map .insert) := by
  refine ⟨?_, ?_, ?_⟩
  · simp [List.filterMap_map, Function.comp_def, AlignItem.mainIdx]
  · simp [List.filterMap_map, Function.comp_def, AlignItem.goldIdx]
  · simp

theorem levenshteinAlign_aligns :
    Aligns isMatch main gold (levenshteinAlign isMatch main gold) ∧
      differences (levenshteinAlign isMatch main gold) = distance unitGap isMatch main gold := by
  rw [levenshteinAlign]
  split
  · rename_i empty
    rw [List.isEmpty_iff] at empty
    subst empty
    refine ⟨aligns_delete_all isMatch gold, ?_⟩
    simp [differences, List.countP_map, Function.comp_def, AlignItem.isMatched, unitGap]
  · split
    · rename_i empty
      rw [List.isEmpty_iff] at empty
      subst empty
      refine ⟨aligns_insert_all isMatch main, ?_⟩
      simp [differences, List.countP_map, Function.comp_def, AlignItem.isMatched, unitGap]
    · rcases traceback_aligns (readsTable_costTable isMatch main gold) main.length gold.length
        le_rfl le_rfl with ⟨aligns, counted⟩
      refine ⟨aligns, ?_⟩
      rw [differences_reverse]
      apply counted.trans
      rw [tokensDistance, List.take_length, List.take_length, EditDistance.distance_reverse]

/-- The loop with checked indices never fails, and returns the same. -/
theorem levenshteinAlignChecked_eq :
    levenshteinAlignChecked isMatch main gold = some (levenshteinAlign isMatch main gold) := by
  rw [levenshteinAlignChecked, levenshteinAlign]
  split
  · rfl
  · split
    · rfl
    · rw [tracebackLoop_eq (readsTable_costTable isMatch main gold) _ _ _ le_rfl le_rfl le_rfl]
      rfl

/-- The loop of the source runs through without an index below zero or outside the table, and
returns an alignment that uses every main and every gold index once and in order, pairs only
tokens that match, and has as few other operations as any such alignment. -/
theorem levenshteinAlign_validMinimal :
    ∃ items, levenshteinAlignChecked isMatch main gold = some items ∧
      items = levenshteinAlign isMatch main gold ∧
      Aligns isMatch main gold items ∧
      IsLeast {total | ∃ other, Aligns isMatch main gold other ∧ differences other = total}
        (differences items) ∧
      IsLeast {total | Script unitGap isMatch main gold total} (differences items) := by
  rcases levenshteinAlign_aligns isMatch main gold with ⟨aligns, counted⟩
  refine ⟨_, levenshteinAlignChecked_eq isMatch main gold, rfl, aligns, ⟨⟨_, aligns, rfl⟩, ?_⟩, ?_⟩
  · rintro total ⟨other, alignsOther, rfl⟩
    rw [counted]
    exact alignsOther.distance_le
  · rw [counted]
    exact EditDistance.distance_isLeast unitGap isMatch main gold

end Whole

end Batchalign.Compare
