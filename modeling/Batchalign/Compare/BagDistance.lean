import Batchalign.Chat.Documented
import Batchalign.Compare.Metrics
import Batchalign.Compare.Minimality
import Batchalign.Library.BagPairing

/-!
# The order-insensitive error rate

`cwer_edit_distance` pairs off the tokens that an alignment leaves unmatched. Whatever the
order of the tokens, the matches of the alignment and the pairs taken off are an exhausted
pairing of the main and the gold tokens, and every exhausted pairing comes from some order.
Parentheses make `match_fn` a relation that does not close its chains, so exhausted pairings
may differ in size, and with them the distance.
-/

namespace Batchalign.Compare

section Plain

theorem stripAll_of_plain {text : String} (plain : ∀ c ∈ text.toList, c ≠ '(' ∧ c ≠ ')') :
    stripAll text = text := by
  rw [stripAll, List.filter_eq_self.mpr]
  · exact String.ofList_toList
  · intro c member
    simpa using plain c member

theorem outsideParens_of_plain {chars : List Char} (plain : ∀ c ∈ chars, c ≠ '(' ∧ c ≠ ')') :
    outsideParens 0 chars = chars := by
  induction chars with
  | nil => rfl
  | cons c chars ih =>
      rcases plain c List.mem_cons_self with ⟨notOpen, notClose⟩
      rw [outsideParens, if_neg notOpen, if_neg notClose, if_pos rfl,
        ih fun other member => plain other (List.mem_cons_of_mem _ member)]

end Plain

section Pairings

variable [UnicodeCase]

/-- A pairing of main with gold tokens that match. -/
abbrev TokenPairing (main gold : List String) : Type :=
  BagPairing (fun x y => matchFn x y = true) (main : Multiset String) (gold : Multiset String)

/-- Some of the tokens can be paired so that a main and a gold token are stranded: one that the
first matches is paired with one that matches the second, and all others that match either are
paired as well. -/
def CanStrand (main gold : List String) : Prop :=
  ∃ (p : TokenPairing main gold) (x y : String), p.Strands x y

/-- Tokens without parentheses match when they are the same up to case, and strand nothing. -/
theorem not_canStrand_of_plain {main gold : List String}
    (plain : ∀ token ∈ main ++ gold, ∀ c ∈ (UnicodeCase.toLowercase token).toList,
      c ≠ '(' ∧ c ≠ ')') :
    ¬ CanStrand main gold := by
  have same : ∀ x ∈ main, ∀ y ∈ gold, matchFn x y = true ↔
      UnicodeCase.toLowercase x = UnicodeCase.toLowercase y := by
    intro x isMain y isGold
    have plainX := plain x (List.mem_append_left _ isMain)
    have plainY := plain y (List.mem_append_right _ isGold)
    simp only [matchFn, stripParenGroup, stripAll_of_plain plainX, stripAll_of_plain plainY,
      outsideParens_of_plain plainX, outsideParens_of_plain plainY, String.ofList_toList]
    simp only [Bool.or_eq_true, beq_iff_eq]
    tauto
  rintro ⟨p, x, y, strands⟩
  refine BagPairing.not_strands_of_closed ?_ p x y strands
  intro x isX u isU v isV y isY toV pair toY
  rw [same x isX v isV] at toV
  rw [same u isU v isV] at pair
  rw [same u isU y isY] at toY
  exact (same x isX y isY).mpr ((toV.trans pair.symm).trans toY)

end Pairings

section PairOff

theorem coe_swapRemove {xs : List String} {idx : ℕ} {x : String} (found : xs[idx]? = some x) :
    (swapRemove xs idx : Multiset String) = (xs : Multiset String).erase x := by
  rcases List.getElem?_eq_some_iff.mp found with ⟨bound, isX⟩
  cases atEnd : xs.getLast? with
  | none =>
      rw [List.getLast?_eq_none_iff.mp atEnd] at bound
      cases bound
  | some last =>
      have setLast : (xs.set idx last).getLast? = some last := by
        rw [List.getLast?_eq_getElem?] at atEnd ⊢
        rw [List.length_set, List.getElem?_set]
        split
        · rfl
        · exact atEnd
      have split : swapRemove xs idx ++ [last] = xs.set idx last := by
        simp only [swapRemove, atEnd]
        exact List.dropLast_append_getLast? last setLast
      have moved : (swapRemove xs idx).Perm (xs.eraseIdx idx) := by
        apply (List.perm_cons last).mp
        calc last :: swapRemove xs idx
            |>.Perm (swapRemove xs idx ++ [last]) := (List.perm_append_singleton _ _).symm
          _ = xs.set idx last := split
          _ |>.Perm (last :: xs.eraseIdx idx) := List.set_perm_cons_eraseIdx bound last
      rw [Multiset.coe_eq_coe.mpr moved, ← isX, Multiset.coe_erase, Multiset.coe_eq_coe]
      apply (List.perm_cons xs[idx]).mp
      exact (List.getElem_cons_eraseIdx_perm bound).trans
        (List.perm_cons_erase (List.getElem_mem bound))

variable [UnicodeCase]

/-- Each main token in turn is paired with a gold token, or left over for good. -/
theorem exists_pairing_foldl_pairOff (main gold : List String) :
    ∃ p : TokenPairing main gold, p.Exhausted ∧
      p.restX.card = (main.foldl pairOff (gold, 0)).2 ∧
      p.restY = ((main.foldl pairOff (gold, 0)).1 : Multiset String) := by
  induction main using List.reverseRecOn with
  | nil => exact ⟨⟨0, 0, gold, rfl, zero_add _, by simp⟩, by simp [BagPairing.Exhausted], rfl, rfl⟩
  | append_singleton main text ih =>
      rcases ih with ⟨p, exhausted, counted, left⟩
      have more : (text ::ₘ (main : Multiset String)) = (main ++ [text] : List String) := by
        rw [Multiset.cons_coe, Multiset.coe_eq_coe]
        exact (List.perm_append_singleton _ _).symm
      rw [List.foldl_append, List.foldl_cons, List.foldl_nil, pairOff]
      simp only [TokenPairing]
      rw [← more]
      generalize main.foldl pairOff (gold, 0) = state at counted left
      cases found : state.1.findIdx? (matchFn text) with
      | none =>
          rw [List.findIdx?_eq_none_iff] at found
          refine ⟨p.consLeft text, ?_, by simp [BagPairing.consLeft, counted], left⟩
          intro x isX y isY
          rcases Multiset.mem_cons.mp isX with rfl | older
          · have isLeft : y ∈ (state.1 : Multiset String) := left ▸ isY
            simp [found y isLeft]
          · exact exhausted x older y isY
      | some idx =>
          rcases List.findIdx?_eq_some_iff_getElem.mp found with ⟨bound, pair, -⟩
          have isY : state.1[idx] ∈ (p.consLeft text).restY := by
            simp [BagPairing.consLeft, left]
          refine ⟨(p.consLeft text).extend (Multiset.mem_cons_self _ _) isY pair, ?_, ?_, ?_⟩
          · intro x isX y isY
            have older : x ∈ p.restX := by
              simpa [BagPairing.extend, BagPairing.consLeft] using isX
            exact exhausted x older y (Multiset.mem_of_mem_erase isY)
          · simp [BagPairing.extend, BagPairing.consLeft, counted]
          · simp only [BagPairing.extend, BagPairing.consLeft, left]
            exact (coe_swapRemove (List.getElem?_eq_getElem bound)).symm

end PairOff

section Orders

/-- An order of the gold tokens in which each token of a pair is first when its turn comes: what
is removed is replaced by the last. -/
def goldOrder (rest : List String) : List (String × String) → List String
  | [] => rest
  | pair :: pairs => pair.2 :: (rest ++ (pairs.map Prod.snd).reverse)

theorem goldOrder_perm (rest : List String) (pairs : List (String × String)) :
    (goldOrder rest pairs).Perm (pairs.map Prod.snd ++ rest) := by
  cases pairs with
  | nil => exact .refl _
  | cons pair pairs =>
      simp only [goldOrder, List.map_cons, List.cons_append]
      apply List.Perm.cons
      exact (List.perm_append_comm).trans ((List.reverse_perm _).append_right rest)

theorem swapRemove_head (y last : String) (golds : List String) :
    swapRemove (y :: (golds ++ [last])) 0 = last :: golds := by
  have atEnd : (y :: (golds ++ [last])).getLast? = some last := by
    rw [← List.cons_append, List.getLast?_concat]
  simp only [swapRemove, atEnd, List.set_cons_zero]
  rw [← List.cons_append, List.dropLast_concat]

variable [UnicodeCase]

theorem pairOff_head {x y : String} {golds : List String} {n : ℕ} (pair : matchFn x y = true) :
    pairOff (y :: golds, n) x = (swapRemove (y :: golds) 0, n) := by
  simp [pairOff, List.findIdx?_cons, pair]

/-- In that order the pairs are taken off one after the other. -/
theorem foldl_pairOff_goldOrder (rest : List String) {pairs : List (String × String)}
    (related : ∀ pair ∈ pairs, matchFn pair.1 pair.2 = true) (n : ℕ) :
    ∃ left, left.Perm rest ∧
      (pairs.map Prod.fst).foldl pairOff (goldOrder rest pairs, n) = (left, n) := by
  induction pairs with
  | nil => exact ⟨rest, .refl _, rfl⟩
  | cons pair pairs ih =>
      have first := related pair List.mem_cons_self
      have relatedRest : ∀ pair ∈ pairs, matchFn pair.1 pair.2 = true :=
        fun other member => related other (List.mem_cons_of_mem _ member)
      simp only [List.map_cons, List.foldl_cons, goldOrder, pairOff_head first]
      cases pairs with
      | nil =>
          refine ⟨swapRemove (pair.2 :: rest) 0, ?_, by simp⟩
          apply Multiset.coe_eq_coe.mp
          rw [coe_swapRemove rfl, ← Multiset.cons_coe, Multiset.erase_cons_head]
      | cons second pairs =>
          rw [List.map_cons, List.reverse_cons, ← List.append_assoc, swapRemove_head]
          exact ih relatedRest

theorem foldl_pairOff_of_unmatched {main gold : List String} (n : ℕ)
    (unmatched : ∀ x ∈ main, ∀ y ∈ gold, ¬ matchFn x y = true) :
    main.foldl pairOff (gold, n) = (gold, n + main.length) := by
  induction main generalizing n with
  | nil => rfl
  | cons text main ih =>
      have none : gold.findIdx? (matchFn text) = none := by
        rw [List.findIdx?_eq_none_iff]
        exact fun y isY => by simpa using unmatched text List.mem_cons_self y isY
      rw [List.foldl_cons, pairOff, none]
      rw [ih (n + 1) fun x isX => unmatched x (List.mem_cons_of_mem _ isX), List.length_cons]
      simp only [Prod.mk.injEq, true_and]
      omega

end Orders

section Extras

/-- The inserted and the deleted tokens of an alignment. -/
def insertedToken (main : List String) : AlignItem → Option String
  | .insert i => some (main.getD i "")
  | _ => none

def deletedToken (gold : List String) : AlignItem → Option String
  | .delete j => some (gold.getD j "")
  | _ => none

def matchedTokens (main gold : List String) : AlignItem → Option (String × String)
  | .matched i j => some (main.getD i "", gold.getD j "")
  | _ => none

theorem extraMain_buildUttCmp (items : List AlignItem) (main mainPos gold goldPos : List String) :
    textsWithStatus .extraMain (buildUttCmp items main mainPos gold goldPos).tokens =
      items.filterMap (insertedToken main) := by
  simp only [buildUttCmp]
  induction items with
  | nil => rfl
  | cons item items ih =>
      simp only [textsWithStatus, List.map_cons] at ih ⊢
      cases item <;> simp [itemToken, insertedToken, List.filterMap_cons, ih]

theorem extraGold_buildUttCmp (items : List AlignItem) (main mainPos gold goldPos : List String) :
    textsWithStatus .extraGold (buildUttCmp items main mainPos gold goldPos).tokens =
      items.filterMap (deletedToken gold) := by
  simp only [buildUttCmp]
  induction items with
  | nil => rfl
  | cons item items ih =>
      simp only [textsWithStatus, List.map_cons] at ih ⊢
      cases item <;> simp [itemToken, deletedToken, List.filterMap_cons, ih]

/-- The main tokens of the items are those of the matches and the inserted ones. -/
theorem mainTokens_split (main gold : List String) (items : List AlignItem) :
    ((items.filterMap (matchedTokens main gold)).map Prod.fst ++
      items.filterMap (insertedToken main)).Perm
        ((items.filterMap AlignItem.mainIdx).map (main.getD · "")) := by
  induction items with
  | nil => exact .refl _
  | cons item items ih =>
      cases item with
      | matched i j =>
          simp only [List.filterMap_cons, matchedTokens, insertedToken, AlignItem.mainIdx,
            List.map_cons, List.cons_append]
          exact ih.cons _
      | insert i =>
          simp only [List.filterMap_cons, matchedTokens, insertedToken, AlignItem.mainIdx,
            List.map_cons]
          exact List.perm_middle.trans (ih.cons _)
      | delete j => simpa only [List.filterMap_cons, matchedTokens, insertedToken,
          AlignItem.mainIdx] using ih

theorem goldTokens_split (main gold : List String) (items : List AlignItem) :
    ((items.filterMap (matchedTokens main gold)).map Prod.snd ++
      items.filterMap (deletedToken gold)).Perm
        ((items.filterMap AlignItem.goldIdx).map (gold.getD · "")) := by
  induction items with
  | nil => exact .refl _
  | cons item items ih =>
      cases item with
      | matched i j =>
          simp only [List.filterMap_cons, matchedTokens, deletedToken, AlignItem.goldIdx,
            List.map_cons, List.cons_append]
          exact ih.cons _
      | insert i => simpa only [List.filterMap_cons, matchedTokens, deletedToken,
          AlignItem.goldIdx] using ih
      | delete j =>
          simp only [List.filterMap_cons, matchedTokens, deletedToken, AlignItem.goldIdx,
            List.map_cons]
          exact List.perm_middle.trans (ih.cons _)

theorem map_getD_range {n : ℕ} (tokens : List String) (bound : n ≤ tokens.length) :
    (List.range n).map (tokens.getD · "") = tokens.take n := by
  apply List.ext_getElem
  · simp [bound]
  · intro i inRange inTokens
    have inside : i < tokens.length := by
      rw [List.length_map, List.length_range] at inRange
      omega
    simp [List.getD, inside]

variable [UnicodeCase]

/-- An alignment pairs main with gold tokens and leaves the inserted and the deleted ones. -/
theorem exists_pairing_of_aligns {main gold : List String} {items : List AlignItem}
    (aligns : Aligns matchFn main gold items) :
    ∃ p : TokenPairing main gold,
      p.restX = (items.filterMap (insertedToken main) : List String) ∧
      p.restY = (items.filterMap (deletedToken gold) : List String) := by
  refine ⟨⟨(items.filterMap (matchedTokens main gold) : List (String × String)),
    (items.filterMap (insertedToken main) : List String),
    (items.filterMap (deletedToken gold) : List String), ?_, ?_, ?_⟩, rfl, rfl⟩
  · rw [Multiset.map_coe, Multiset.coe_add, Multiset.coe_eq_coe]
    apply (mainTokens_split main gold items).trans
    rw [aligns.mainOnce, map_getD_range main le_rfl, List.take_length]
  · rw [Multiset.map_coe, Multiset.coe_add, Multiset.coe_eq_coe]
    apply (goldTokens_split main gold items).trans
    rw [aligns.goldOnce, map_getD_range gold le_rfl, List.take_length]
  · intro pair member
    rcases List.mem_filterMap.mp (Multiset.mem_coe.mp member) with ⟨item, isItem, isPair⟩
    cases item with
    | matched i j =>
        rcases aligns.pairs i j isItem with ⟨x, y, atMain, atGold, related⟩
        cases isPair
        simpa [List.getD, atMain, atGold] using related
    | insert i => cases isPair
    | delete j => cases isPair

/-- Two token lists aligned, as one utterance. -/
def alignedCmp (main mainPos gold goldPos : List String) : UttCmp :=
  buildUttCmp (levenshteinAlign matchFn main gold) main mainPos gold goldPos

/-- The distance is what an exhausted pairing of all tokens leaves over. -/
theorem exists_pairing_cwerEditDistance (main mainPos gold goldPos : List String) :
    ∃ p : TokenPairing main gold, p.Exhausted ∧
      (alignedCmp main mainPos gold goldPos).cwerEditDistance = p.restX.card + p.restY.card := by
  rcases exists_pairing_of_aligns (levenshteinAlign_aligns matchFn main gold).1 with
    ⟨p, leftX, leftY⟩
  simp only [UttCmp.cwerEditDistance, alignedCmp, extraMain_buildUttCmp, extraGold_buildUttCmp]
  rcases exists_pairing_foldl_pairOff
    ((levenshteinAlign matchFn main gold).filterMap (insertedToken main))
    ((levenshteinAlign matchFn main gold).filterMap (deletedToken gold)) with
    ⟨q, exhausted, counted, left⟩
  refine ⟨p.andThen q leftX leftY, exhausted, ?_⟩
  simp only [BagPairing.andThen]
  rw [counted, left, Multiset.coe_card]

end Extras

section Attained

variable [UnicodeCase]

/-- An exhausted pairing in lists. -/
theorem exists_lists {main gold : List String} (p : TokenPairing main gold)
    (exhausted : p.Exhausted) :
    ∃ (pairs : List (String × String)) (restX restY : List String),
      (pairs.map Prod.fst ++ restX).Perm main ∧ (pairs.map Prod.snd ++ restY).Perm gold ∧
        (∀ pair ∈ pairs, matchFn pair.1 pair.2 = true) ∧
        (∀ x ∈ restX, ∀ y ∈ restY, ¬ matchFn x y = true) ∧
        restX.length = p.restX.card ∧ restY.length = p.restY.card := by
  refine ⟨p.pairs.toList, p.restX.toList, p.restY.toList, ?_, ?_, ?_, ?_, ?_, ?_⟩
  · apply Multiset.coe_eq_coe.mp
    rw [← Multiset.coe_add, ← Multiset.map_coe, Multiset.coe_toList, Multiset.coe_toList, p.left]
  · apply Multiset.coe_eq_coe.mp
    rw [← Multiset.coe_add, ← Multiset.map_coe, Multiset.coe_toList, Multiset.coe_toList, p.right]
  · exact fun pair member => p.related pair (Multiset.mem_toList.mp member)
  · intro x isX y isY
    exact exhausted x (Multiset.mem_toList.mp isX) y (Multiset.mem_toList.mp isY)
  · exact Multiset.length_toList _
  · exact Multiset.length_toList _

/-- Some order of unaligned tokens leaves over what the pairing does. -/
theorem exists_order_foldl_pairOff {main gold : List String} (p : TokenPairing main gold)
    (exhausted : p.Exhausted) :
    ∃ main' gold' : List String, main'.Perm main ∧ gold'.Perm gold ∧
      (main'.foldl pairOff (gold', 0)).2 + (main'.foldl pairOff (gold', 0)).1.length =
        p.restX.card + p.restY.card := by
  rcases exists_lists p exhausted with
    ⟨pairs, restX, restY, isMain, isGold, related, unrelated, lengthX, lengthY⟩
  rcases foldl_pairOff_goldOrder restY related 0 with ⟨left, isRest, taken⟩
  refine ⟨pairs.map Prod.fst ++ restX, goldOrder restY pairs, isMain,
    (goldOrder_perm restY pairs).trans isGold, ?_⟩
  have unmatched : ∀ x ∈ restX, ∀ y ∈ left, ¬ matchFn x y = true :=
    fun x isX y isY => unrelated x isX y (isRest.mem_iff.mp isY)
  rw [List.foldl_append, taken, foldl_pairOff_of_unmatched 0 unmatched]
  simp only [isRest.length_eq]
  omega

end Attained

section Traceback

variable {α β : Type} {isMatch : α → β → Bool} {main : List α} {gold : List β} {dp : ℕ → ℕ → ℕ}
  {isPair : ℕ → ℕ → Bool}

theorem tokensDistance_succ_of_match {i j : ℕ} {x : α} {y : β} (atMain : main[i]? = some x)
    (atGold : gold[j]? = some y) (pair : isMatch x y = true) :
    tokensDistance isMatch main gold (i + 1) (j + 1) = tokensDistance isMatch main gold i j := by
  simp only [tokensDistance, take_succ_of_getElem? atMain, take_succ_of_getElem? atGold,
    List.reverse_concat]
  exact EditDistance.distance_cons_of_matched pair _ _

/-- Where the last two tokens match, they are matched. -/
theorem traceback_of_match (reads : ReadsTable isMatch main gold dp isPair) {i j : ℕ} {x : α}
    {y : β} (atMain : main[i]? = some x) (atGold : gold[j]? = some y)
    (pair : isMatch x y = true) :
    traceback dp isPair (i + 1) (j + 1) = .matched i j :: traceback dp isPair i j := by
  have mainBound := (List.getElem?_eq_some_iff.mp atMain).1
  have goldBound := (List.getElem?_eq_some_iff.mp atGold).1
  have diagonal : dp (i + 1) (j + 1) = dp i j + 0 := by
    rw [reads.entries _ _ mainBound goldBound, reads.entries i j mainBound.le goldBound.le]
    exact tokensDistance_succ_of_match atMain atGold pair
  have paired : isPair i j = true := (reads.compared i j x y atMain atGold).trans pair
  rw [traceback, if_pos paired, if_pos diagonal, if_pos paired]

/-- Pairs that stand at the end of both sides are all matched. -/
theorem traceback_pairs (restX : List α) (restY : List β) (pairs : List (α × β))
    (reads : ReadsTable isMatch (restX ++ pairs.map Prod.fst) (restY ++ pairs.map Prod.snd) dp
      isPair)
    (related : ∀ pair ∈ pairs, isMatch pair.1 pair.2 = true) (k : ℕ) (bound : k ≤ pairs.length) :
    ∃ matches', (∀ item ∈ matches', item.isMatched = true) ∧
      traceback dp isPair (restX.length + k) (restY.length + k) =
        matches' ++ traceback dp isPair restX.length restY.length := by
  induction k with
  | zero => exact ⟨[], by simp, rfl⟩
  | succ k ih =>
      rcases ih (by omega) with ⟨earlier, areMatched, traced⟩
      have atPairs : pairs[k]? = some pairs[k] := List.getElem?_eq_getElem bound
      have atMain : (restX ++ pairs.map Prod.fst)[restX.length + k]? = some pairs[k].1 := by
        rw [List.getElem?_append_right (Nat.le_add_right _ _), Nat.add_sub_cancel_left,
          List.getElem?_map, atPairs]
        rfl
      have atGold : (restY ++ pairs.map Prod.snd)[restY.length + k]? = some pairs[k].2 := by
        rw [List.getElem?_append_right (Nat.le_add_right _ _), Nat.add_sub_cancel_left,
          List.getElem?_map, atPairs]
        rfl
      refine ⟨.matched (restX.length + k) (restY.length + k) :: earlier, ?_, ?_⟩
      · exact List.forall_mem_cons.mpr ⟨rfl, areMatched⟩
      · rw [← Nat.add_assoc, ← Nat.add_assoc, traceback_of_match reads atMain atGold
          (related _ (List.getElem_mem bound)), traced, List.cons_append]

/-- Where no two tokens match, everything is inserted or deleted. -/
theorem not_isMatched_of_unrelated (reads : ReadsTable isMatch main gold dp isPair) {n m : ℕ}
    (mainBound : n ≤ main.length) (goldBound : m ≤ gold.length)
    (unrelated : ∀ x ∈ main.take n, ∀ y ∈ gold.take m, ¬ isMatch x y = true) :
    ∀ item ∈ traceback dp isPair n m, item.isMatched = false := by
  intro item member
  cases item with
  | matched i j =>
      rcases traceback_within dp isPair n m _ member with ⟨mainInside, goldInside⟩
      have aligns := (traceback_aligns reads n m mainBound goldBound).1
      rcases aligns.pairs i j (List.mem_reverse.mpr member) with ⟨x, y, atMain, atGold, pair⟩
      refine absurd pair (unrelated x ?_ y ?_)
      · exact List.mem_of_getElem? ((List.getElem?_take_of_lt mainInside).trans atMain)
      · exact List.mem_of_getElem? ((List.getElem?_take_of_lt goldInside).trans atGold)
  | insert i => rfl
  | delete j => rfl

theorem traceback_zero_left (dp : ℕ → ℕ → ℕ) (isPair : ℕ → ℕ → Bool) (m : ℕ) :
    (traceback dp isPair 0 m).reverse = (List.range m).map .delete := by
  induction m with
  | zero => simp [traceback]
  | succ m ih => rw [traceback, List.reverse_cons, ih, List.range_succ, List.map_append]; rfl

theorem traceback_zero_right (dp : ℕ → ℕ → ℕ) (isPair : ℕ → ℕ → Bool) (n : ℕ) :
    (traceback dp isPair n 0).reverse = (List.range n).map .insert := by
  induction n with
  | zero => simp [traceback]
  | succ n ih => rw [traceback, List.reverse_cons, ih, List.range_succ, List.map_append]; rfl

variable (isMatch main gold) in
/-- The two short cuts for an empty side do what the traceback would. -/
theorem exists_levenshteinAlign_eq : ∃ dp isPair, ReadsTable isMatch main gold dp isPair ∧
    levenshteinAlign isMatch main gold = (traceback dp isPair main.length gold.length).reverse := by
  refine ⟨_, _, readsTable_costTable isMatch main gold, ?_⟩
  rw [levenshteinAlign]
  split
  · next empty =>
    rw [List.isEmpty_iff.mp empty, List.length_nil, traceback_zero_left]
  · split
    · next empty =>
      rw [List.isEmpty_iff.mp empty, List.length_nil, traceback_zero_right]
    · rfl

end Traceback

section Aligned

theorem filterMap_eq_nil_of_isMatched {items : List AlignItem} (tokens : List String)
    (areMatched : ∀ item ∈ items, item.isMatched = true) :
    items.filterMap (insertedToken tokens) = [] ∧ items.filterMap (deletedToken tokens) = [] := by
  constructor
  · apply List.filterMap_eq_nil_iff.mpr
    intro item member
    cases item with
    | matched i j => rfl
    | insert i => cases areMatched _ member
    | delete j => cases areMatched _ member
  · apply List.filterMap_eq_nil_iff.mpr
    intro item member
    cases item with
    | matched i j => rfl
    | insert i => cases areMatched _ member
    | delete j => cases areMatched _ member

variable [UnicodeCase]

/-- Without a match all main tokens are inserted and all gold tokens deleted. -/
theorem extras_of_unmatched {n m : ℕ} {main gold : List String} {items : List AlignItem}
    (aligns : AlignsUpTo matchFn main gold n m items) (mainBound : n ≤ main.length)
    (goldBound : m ≤ gold.length) (unmatched : ∀ item ∈ items, item.isMatched = false) :
    items.filterMap (insertedToken main) = main.take n ∧
      items.filterMap (deletedToken gold) = gold.take m := by
  constructor
  · rw [← map_getD_range main mainBound, ← aligns.mainOnce, List.map_filterMap]
    apply List.filterMap_congr
    intro item member
    cases item with
    | matched i j => cases unmatched _ member
    | insert i => rfl
    | delete j => rfl
  · rw [← map_getD_range gold goldBound, ← aligns.goldOnce, List.map_filterMap]
    apply List.filterMap_congr
    intro item member
    cases item with
    | matched i j => cases unmatched _ member
    | insert i => rfl
    | delete j => rfl

/-- Some order of aligned tokens leaves over what the pairing does. -/
theorem exists_order_aligned {main gold : List String} (p : TokenPairing main gold)
    (exhausted : p.Exhausted) :
    ∃ main' gold' : List String, main'.Perm main ∧ gold'.Perm gold ∧ ∀ mainPos goldPos,
      (alignedCmp main' mainPos gold' goldPos).cwerEditDistance = p.restX.card + p.restY.card := by
  rcases exists_lists p exhausted with
    ⟨pairs, restX, restY, isMain, isGold, related, unrelated, lengthX, lengthY⟩
  refine ⟨restX ++ pairs.map Prod.fst, restY ++ pairs.map Prod.snd,
    List.perm_append_comm.trans isMain, List.perm_append_comm.trans isGold, ?_⟩
  intro mainPos goldPos
  rcases exists_levenshteinAlign_eq matchFn (restX ++ pairs.map Prod.fst)
    (restY ++ pairs.map Prod.snd) with ⟨dp, isPair, reads, aligned⟩
  rcases traceback_pairs restX restY pairs reads related pairs.length le_rfl with
    ⟨pairItems, areMatched, traced⟩
  have mainBound : restX.length ≤ (restX ++ pairs.map Prod.fst).length := by simp
  have goldBound : restY.length ≤ (restY ++ pairs.map Prod.snd).length := by simp
  have unmatched := not_isMatched_of_unrelated reads mainBound goldBound (by simpa using unrelated)
  have extras := extras_of_unmatched (traceback_aligns reads _ _ mainBound goldBound).1 mainBound
    goldBound fun item member => unmatched item (List.mem_reverse.mp member)
  rw [List.take_left, List.take_left, List.filterMap_reverse, List.filterMap_reverse] at extras
  simp only [UttCmp.cwerEditDistance, alignedCmp, extraMain_buildUttCmp, extraGold_buildUttCmp,
    aligned, List.length_append, List.length_map, traced, List.filterMap_reverse,
    List.filterMap_append,
    (filterMap_eq_nil_of_isMatched _ areMatched).1, (filterMap_eq_nil_of_isMatched _ areMatched).2,
    List.nil_append, extras.1, extras.2]
  rw [foldl_pairOff_of_unmatched 0 unrelated]
  simp only
  omega

end Aligned

section OrderInsensitive

/-- Tokens that no alignment has matched. -/
def unalignedCmp (main gold : List String) : UttCmp where
  tokens := main.map (⟨·, .extraMain, .tag "?"⟩) ++ gold.map (⟨·, .extraGold, .tag "?"⟩)
  matchCount := 0
  inserts := main.length
  deletes := gold.length
  mainUttIdx := none

theorem textsWithStatus_unalignedCmp (main gold : List String) :
    textsWithStatus .extraMain (unalignedCmp main gold).tokens = main ∧
      textsWithStatus .extraGold (unalignedCmp main gold).tokens = gold := by
  have tagged : (TokPos.tag "?" != TokPos.punct) = true := rfl
  have goldNotMain : (TokStatus.extraGold == TokStatus.extraMain) = false := rfl
  have mainNotGold : (TokStatus.extraMain == TokStatus.extraGold) = false := rfl
  constructor
  · simp [textsWithStatus, unalignedCmp, List.filter_map, Function.comp_def, tagged, goldNotMain]
  · simp [textsWithStatus, unalignedCmp, List.filter_map, Function.comp_def, tagged, mainNotGold]

variable [UnicodeCase]

/-- What the exhausted pairings of the tokens leave over. -/
def leftOvers (main gold : List String) : Set ℕ :=
  {n | ∃ p : TokenPairing main gold, p.Exhausted ∧ n = p.restX.card + p.restY.card}

theorem leftOvers_of_perm {main main' gold gold' : List String} (permMain : main'.Perm main)
    (permGold : gold'.Perm gold) : leftOvers main' gold' = leftOvers main gold := by
  simp only [leftOvers, TokenPairing]
  rw [Multiset.coe_eq_coe.mpr permMain, Multiset.coe_eq_coe.mpr permGold]

/-- One value is left over whatever is paired exactly when nothing can be stranded. -/
theorem leftOvers_eq_iff {main gold : List String} {n : ℕ} (isLeft : n ∈ leftOvers main gold) :
    (∀ m ∈ leftOvers main gold, m = n) ↔ ¬ CanStrand main gold := by
  have strands_iff : ¬ CanStrand main gold ↔
      ∀ p : TokenPairing main gold, ∀ x y, ¬ p.Strands x y := by
    simp only [CanStrand, not_exists]
  rw [strands_iff, ← BagPairing.exhausted_card_eq_iff]
  constructor
  · intro one p q exhaustedP exhaustedQ
    apply (BagPairing.rest_card_eq_iff p q).mp
    exact (one _ ⟨p, exhaustedP, rfl⟩).trans (one _ ⟨q, exhaustedQ, rfl⟩).symm
  · rintro sizes m ⟨p, exhaustedP, rfl⟩
    rcases isLeft with ⟨q, exhaustedQ, rfl⟩
    exact (BagPairing.rest_card_eq_iff p q).mpr (sizes p q exhaustedP exhaustedQ)

/-- The distance depends on nothing but the bags of main and gold tokens exactly when these
cannot strand a token on each side, both for the tokens that an alignment has left and for
tokens that are aligned first. -/
theorem cwerEditDistance_orderInsensitive_iff :
    (∀ cmp : UttCmp,
      (∀ other : UttCmp,
        (textsWithStatus .extraMain other.tokens).Perm (textsWithStatus .extraMain cmp.tokens) →
        (textsWithStatus .extraGold other.tokens).Perm (textsWithStatus .extraGold cmp.tokens) →
        other.cwerEditDistance = cmp.cwerEditDistance) ↔
      ¬ CanStrand (textsWithStatus .extraMain cmp.tokens)
        (textsWithStatus .extraGold cmp.tokens)) ∧
    ∀ main mainPos gold goldPos : List String,
      (∀ main' mainPos' gold' goldPos', main'.Perm main → gold'.Perm gold →
        (alignedCmp main' mainPos' gold' goldPos').cwerEditDistance =
          (alignedCmp main mainPos gold goldPos).cwerEditDistance) ↔
      ¬ CanStrand main gold := by
  constructor
  · intro cmp
    have isLeft : ∀ cmp : UttCmp, cmp.cwerEditDistance ∈
        leftOvers (textsWithStatus .extraMain cmp.tokens)
          (textsWithStatus .extraGold cmp.tokens) := by
      intro cmp
      rcases exists_pairing_foldl_pairOff (textsWithStatus .extraMain cmp.tokens)
        (textsWithStatus .extraGold cmp.tokens) with ⟨p, exhausted, counted, left⟩
      refine ⟨p, exhausted, ?_⟩
      rw [counted, left, Multiset.coe_card, UttCmp.cwerEditDistance]
    rw [← leftOvers_eq_iff (isLeft cmp)]
    constructor
    · rintro same m ⟨p, exhausted, rfl⟩
      rcases exists_order_foldl_pairOff p exhausted with
        ⟨main', gold', permMain, permGold, distance⟩
      rcases textsWithStatus_unalignedCmp main' gold' with ⟨mainTexts, goldTexts⟩
      rw [← same (unalignedCmp main' gold') (by rwa [mainTexts]) (by rwa [goldTexts]), ← distance,
        UttCmp.cwerEditDistance, mainTexts, goldTexts]
    · intro one other permMain permGold
      apply one
      rw [← leftOvers_of_perm permMain permGold]
      exact isLeft other
  · intro main mainPos gold goldPos
    have isLeft : ∀ main mainPos gold goldPos : List String,
        (alignedCmp main mainPos gold goldPos).cwerEditDistance ∈ leftOvers main gold :=
      exists_pairing_cwerEditDistance
    rw [← leftOvers_eq_iff (isLeft main mainPos gold goldPos)]
    constructor
    · rintro same m ⟨p, exhausted, rfl⟩
      rcases exists_order_aligned p exhausted with ⟨main', gold', permMain, permGold, distance⟩
      rw [← same main' [] gold' [] permMain permGold, distance]
    · intro one main' mainPos' gold' goldPos' permMain permGold
      apply one
      rw [← leftOvers_of_perm permMain permGold]
      exact isLeft main' mainPos' gold' goldPos'

end OrderInsensitive

section Instances

/-- `(be)cause` matches both `cause` and `because`, which do not match each other. -/
theorem cwerEditDistance_depends_on_order :
    ¬ ∀ main main' gold gold' : List String, main'.Perm main → gold'.Perm gold →
      (alignedCmp main' [] gold' []).cwerEditDistance =
        (alignedCmp main [] gold []).cwerEditDistance := by
  intro same
  have distances := same ["cause", "because"] ["cause", "because"] ["(be)cause", "because"]
    ["because", "(be)cause"] (.refl _) (.swap _ _ _)
  revert distances
  decide +kernel

end Instances

end Batchalign.Compare
