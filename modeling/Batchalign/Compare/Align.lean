import Batchalign.Text

/-!
# Alignment of tokens

`match_fn` and `levenshtein_align` of `backends/compare.rs`. A substitution costs as
much as a gap on each side and is emitted as such a pair. The source has the match
relation fixed; here the aligner takes it as an argument.
-/

namespace Batchalign.Compare

inductive AlignItem where
  | matched (i j : ℕ)
  | insert (i : ℕ)
  | delete (j : ℕ)
deriving DecidableEq, Repr

def AlignItem.isMatched : AlignItem → Bool
  | .matched _ _ => true
  | _ => false

def AlignItem.isInsert : AlignItem → Bool
  | .insert _ => true
  | _ => false

def AlignItem.isDelete : AlignItem → Bool
  | .delete _ => true
  | _ => false

section Matching

/-- The text without its parentheses. -/
def stripAll (text : String) : String :=
  String.ofList (text.toList.filter fun c => c != '(' && c != ')')

/-- The characters outside of parentheses, `depth` of which are open. -/
def outsideParens (depth : ℕ) : List Char → List Char
  | [] => []
  | c :: cs =>
      if c = '(' then outsideParens (depth + 1) cs
      else if c = ')' then outsideParens (depth - 1) cs
      else if depth = 0 then c :: outsideParens depth cs
      else outsideParens depth cs

def stripParenGroup (text : String) : String :=
  String.ofList (outsideParens 0 text.toList)

def matchFn [UnicodeCase] (x y : String) : Bool :=
  let xl := UnicodeCase.toLowercase x
  let yl := UnicodeCase.toLowercase y
  xl == yl || stripAll xl == stripAll yl || stripParenGroup yl == xl || stripParenGroup xl == yl

end Matching

section Levenshtein

variable {α β : Type} (isMatch : α → β → Bool)

def subCost : ℕ := 2

def pairCost (x : α) (y : β) : ℕ := if isMatch x y then 0 else subCost

/-- The entries of row `i` from column `j + 1` on, where `left` is entry `j`. The row above is
given from its entry `j` on. -/
def rowEntries (x : α) : List β → List ℕ → ℕ → List ℕ
  | y :: gold, diagonal :: up :: above, left =>
      let sub := diagonal + pairCost isMatch x y
      let del := left + 1
      let ins := up + 1
      let entry := min (min sub del) ins
      entry :: rowEntries x gold (up :: above) entry
  | _, _, _ => []

/-- The rows of the table below `above`, which is row `i`. -/
def tableRows (gold : List β) : List α → ℕ → List ℕ → List (List ℕ)
  | [], _, _ => []
  | x :: main, i, above =>
      let row := (i + 1) :: rowEntries isMatch x gold above (i + 1)
      row :: tableRows gold main (i + 1) row

/-- The table of costs, row by row. -/
def costTable (main : List α) (gold : List β) : List (List ℕ) :=
  let first := List.range (gold.length + 1)
  first :: tableRows isMatch gold main 0 first

/-- The items from `(i, j)` back to the origin, last item first. `dp` reads the table and
`isPair` compares the tokens at two positions. -/
def traceback (dp : ℕ → ℕ → ℕ) (isPair : ℕ → ℕ → Bool) : ℕ → ℕ → List AlignItem
  | 0, 0 => []
  | 0, j + 1 => .delete j :: traceback dp isPair 0 j
  | i + 1, 0 => .insert i :: traceback dp isPair i 0
  | i + 1, j + 1 =>
      if dp (i + 1) (j + 1) = dp i j + (if isPair i j then 0 else subCost) then
        if isPair i j then .matched i j :: traceback dp isPair i j
        else .insert i :: .delete j :: traceback dp isPair i j
      else if dp (i + 1) (j + 1) = dp (i + 1) j + 1 then
        .delete j :: traceback dp isPair (i + 1) j
      else .insert i :: traceback dp isPair i (j + 1)
termination_by i j => i + j

def levenshteinAlign (main : List α) (gold : List β) : List AlignItem :=
  if main.isEmpty then (List.range gold.length).map .delete
  else if gold.isEmpty then (List.range main.length).map .insert
  else
    let table := costTable isMatch main gold
    let dp i j := (table.getD i []).getD j 0
    let isPair i j :=
      match main[i]?, gold[j]? with
      | some x, some y => isMatch x y
      | _, _ => false
    (traceback dp isPair main.length gold.length).reverse

/-- The positions of an item lie before `n` on the main and before `m` on the gold side. -/
def AlignItem.Within (n m : ℕ) : AlignItem → Prop
  | .matched i j => i < n ∧ j < m
  | .insert i => i < n
  | .delete j => j < m

theorem AlignItem.Within.mono {n m n' m' : ℕ} {item : AlignItem} (within : item.Within n m)
    (mainLe : n ≤ n') (goldLe : m ≤ m') : item.Within n' m' := by
  cases item with
  | matched i j => exact ⟨lt_of_lt_of_le within.1 mainLe, lt_of_lt_of_le within.2 goldLe⟩
  | insert i => exact lt_of_lt_of_le within mainLe
  | delete j => exact lt_of_lt_of_le within goldLe

theorem traceback_within (dp : ℕ → ℕ → ℕ) (isPair : ℕ → ℕ → Bool) (n m : ℕ) :
    ∀ item ∈ traceback dp isPair n m, item.Within n m := by
  fun_induction traceback dp isPair n m with
  | case1 => simp
  | case2 j ih =>
      simp only [List.forall_mem_cons]
      refine ⟨Nat.lt_succ_self j, ?_⟩
      intro item member
      exact (ih item member).mono le_rfl (Nat.le_succ j)
  | case3 i ih =>
      simp only [List.forall_mem_cons]
      refine ⟨Nat.lt_succ_self i, ?_⟩
      intro item member
      exact (ih item member).mono (Nat.le_succ i) le_rfl
  | case4 i j _ _ ih =>
      -- a pair
      simp only [List.forall_mem_cons]
      refine ⟨⟨Nat.lt_succ_self i, Nat.lt_succ_self j⟩, ?_⟩
      intro item member
      exact (ih item member).mono (Nat.le_succ i) (Nat.le_succ j)
  | case5 i j _ _ ih =>
      -- a substitution, which is two items
      simp only [List.forall_mem_cons]
      refine ⟨Nat.lt_succ_self i, Nat.lt_succ_self j, ?_⟩
      intro item member
      exact (ih item member).mono (Nat.le_succ i) (Nat.le_succ j)
  | case6 i j _ _ ih =>
      simp only [List.forall_mem_cons]
      refine ⟨Nat.lt_succ_self j, ?_⟩
      intro item member
      exact (ih item member).mono le_rfl (Nat.le_succ j)
  | case7 i j _ _ ih =>
      simp only [List.forall_mem_cons]
      refine ⟨Nat.lt_succ_self i, ?_⟩
      intro item member
      exact (ih item member).mono (Nat.le_succ i) le_rfl

/-- Every item is about tokens that exist. -/
theorem levenshteinAlign_within (main : List α) (gold : List β) :
    ∀ item ∈ levenshteinAlign isMatch main gold, item.Within main.length gold.length := by
  intro item member
  simp only [levenshteinAlign] at member
  split at member
  · rcases List.mem_map.mp member with ⟨j, below, rfl⟩
    exact List.mem_range.mp below
  · split at member
    · rcases List.mem_map.mp member with ⟨i, below, rfl⟩
      exact List.mem_range.mp below
    · exact traceback_within _ _ _ _ item (List.mem_reverse.mp member)

end Levenshtein

end Batchalign.Compare
