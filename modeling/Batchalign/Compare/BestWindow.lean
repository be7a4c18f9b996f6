import Batchalign.Compare.Windows
import Batchalign.Chat.Documented

/-!
# The best window of a gold utterance

The search of `find_best_segment` keeps the greatest projected window in the order of overlap,
aligned matches, end and waste. It gives no window where no projected one has a gold token: the
gold utterance is much longer than what is left of the main one, or its only tokens are always
cut off with the ends of the windows.
-/

namespace Batchalign.Compare

section Majority

variable {slice : List ℕ} {value idx : ℕ} {counts : List ValueCount} {entry : ValueCount}

/-- The counts of a slice, and where its values come first. -/
structure CountsOf (slice : List ℕ) (counts : List ValueCount) : Prop where
  exact : ∀ entry ∈ counts, entry.value ∈ slice ∧ entry.count = slice.count entry.value ∧
    entry.firstSeen = slice.idxOf entry.value
  whole : ∀ value ∈ slice, ∃ entry ∈ counts, entry.value = value

theorem CountsOf.concat (counted : CountsOf slice counts) (value : ℕ) :
    CountsOf (slice ++ [value]) (countValue counts value slice.length) := by
  unfold countValue
  split
  · rename_i seen
    rcases List.any_eq_true.mp seen with ⟨old, isOld, isValue⟩
    have inSlice : value ∈ slice := by
      rw [← beq_iff_eq.mp isValue]
      exact (counted.exact old isOld).1
    constructor
    · intro entry member
      rcases List.mem_map.mp member with ⟨before, isBefore, rfl⟩
      rcases counted.exact before isBefore with ⟨here, count, first⟩
      split_ifs with same
      · refine ⟨List.mem_append_left _ here, ?_, ?_⟩
        · rw [List.count_append, ← count]
          simp [same]
        · rw [first, List.idxOf_append_of_mem here]
      · refine ⟨List.mem_append_left _ here, ?_, ?_⟩
        · rw [List.count_append, ← count]
          simp [Ne.symm same]
        · rw [first, List.idxOf_append_of_mem here]
    · intro other member
      have inOld : other ∈ slice := by
        rcases List.mem_append.mp member with old | new
        · exact old
        · rw [List.mem_singleton.mp new]
          exact inSlice
      rcases counted.whole other inOld with ⟨entry, isEntry, rfl⟩
      refine ⟨_, List.mem_map_of_mem isEntry, ?_⟩
      split_ifs
      · rfl
      · rfl
  · rename_i unseen
    have notIn : value ∉ slice := by
      intro inSlice
      rcases counted.whole value inSlice with ⟨entry, isEntry, same⟩
      exact unseen (List.any_eq_true.mpr ⟨entry, isEntry, beq_iff_eq.mpr same⟩)
    constructor
    · intro entry member
      rcases List.mem_append.mp member with old | new
      · rcases counted.exact entry old with ⟨here, count, first⟩
        have differ : value ≠ entry.value := fun same => notIn (same ▸ here)
        refine ⟨List.mem_append_left _ here, ?_, ?_⟩
        · rw [List.count_append, ← count]
          simp [differ]
        · rw [first, List.idxOf_append_of_mem here]
      · rw [List.mem_singleton.mp new]
        refine ⟨by simp, ?_, ?_⟩
        · rw [List.count_append, List.count_eq_zero_of_not_mem notIn]
          simp
        · rw [List.idxOf_append_of_notMem notIn]
          simp
    · intro other member
      rcases List.mem_append.mp member with old | new
      · rcases counted.whole other old with ⟨entry, isEntry, same⟩
        exact ⟨entry, List.mem_append_left _ isEntry, same⟩
      · refine ⟨_, List.mem_append_right _ (List.mem_singleton_self _), ?_⟩
        exact (List.mem_singleton.mp new).symm

theorem valueCounts_countsOf (slice : List ℕ) : CountsOf slice (valueCounts slice) := by
  induction slice using List.reverseRecOn with
  | nil => exact ⟨by simp [valueCounts], by simp⟩
  | append_singleton slice value ih =>
      have step : valueCounts (slice ++ [value]) =
          countValue (valueCounts slice) value slice.length := by
        simp [valueCounts, List.zipIdx_append]
      rw [step]
      exact ih.concat value

theorem ValueCount.less_iff {a b : ValueCount} :
    a.less b ↔ a.count < b.count ∨ a.count = b.count ∧ b.firstSeen < a.firstSeen := by
  simp [less]

theorem ValueCount.not_less_trans {a b c : ValueCount} (first : ¬ a.less b)
    (second : ¬ b.less c) : ¬ a.less c := by
  rw [less_iff] at *
  omega

theorem ValueCount.max_not_less (a b : ValueCount) : ¬ (a.max b).less a ∧ ¬ (a.max b).less b := by
  unfold ValueCount.max
  split
  · rename_i below
    rw [less_iff] at *
    rw [less_iff]
    omega
  · rename_i notBelow
    rw [less_iff] at *
    rw [less_iff]
    omega

/-- No entry is above the one that is kept. -/
theorem foldl_max_spec (rest : List ValueCount) (first : ValueCount) :
    ∀ entry ∈ first :: rest, ¬ (rest.foldl ValueCount.max first).less entry := by
  induction rest generalizing first with
  | nil =>
      intro entry member
      rw [List.mem_singleton.mp member, List.foldl_nil, ValueCount.less_iff]
      omega
  | cons head rest ih =>
      have kept := ih (first.max head) _ List.mem_cons_self
      rcases first.max_not_less head with ⟨aboveFirst, aboveHead⟩
      intro entry member
      rw [List.foldl_cons]
      rcases List.mem_cons.mp member with rfl | later
      · exact ValueCount.not_less_trans kept aboveFirst
      · rcases List.mem_cons.mp later with rfl | inRest
        · exact ValueCount.not_less_trans kept aboveHead
        · exact ih _ entry (List.mem_cons_of_mem _ inRest)

/-- The majority comes most often, and among such values first. -/
theorem majorityValue_spec (member : value ∈ slice) :
    slice.count value ≤ slice.count (majorityValue slice) ∧
      (slice.count value = slice.count (majorityValue slice) →
        slice.idxOf (majorityValue slice) ≤ slice.idxOf value) := by
  have counted := valueCounts_countsOf slice
  rcases counted.whole value member with ⟨entry, isEntry, rfl⟩
  rcases counted.exact entry isEntry with ⟨_, count, first⟩
  unfold majorityValue
  cases counts : valueCounts slice with
  | nil =>
      rw [counts] at isEntry
      cases isEntry
  | cons start rest =>
      rw [counts] at counted isEntry
      have isKept := foldl_max_mem rest start
      rcases counted.exact _ isKept with ⟨_, keptCount, keptFirst⟩
      have top := foldl_max_spec rest start entry isEntry
      rw [ValueCount.less_iff] at top
      dsimp only
      rw [← count, ← keptCount, ← keptFirst, ← first]
      omega

/-- The majority of a slice is that of a part that begins with it and has it all. -/
theorem majorityValue_of_part {front part back : List ℕ} {majority : ℕ}
    (isMajority : majorityValue (front ++ part ++ back) = majority)
    (begins : part.head? = some majority) (notFront : majority ∉ front)
    (notBack : majority ∉ back) : majorityValue part = majority := by
  rcases part with _ | ⟨head, rest⟩
  · cases begins
  · obtain rfl : head = majority := by simpa using begins
    have inPart : majorityValue (head :: rest) ∈ head :: rest :=
      majorityValue_mem (List.cons_ne_nil _ _)
    have most := @majorityValue_spec (head :: rest) head List.mem_cons_self
    have inWhole := (@majorityValue_spec (front ++ head :: rest ++ back) _
      (List.mem_append_left _ (List.mem_append_right _ inPart))).1
    rw [isMajority] at inWhole
    simp only [List.count_append, List.count_eq_zero_of_not_mem notFront,
      List.count_eq_zero_of_not_mem notBack] at inWhole
    have first := most.2 (by omega)
    rw [List.idxOf_cons_self, Nat.le_zero] at first
    by_contra differ
    rw [List.idxOf_cons_ne _ (Ne.symm differ)] at first
    cases first

end Majority

section Projection

variable {mainUtts : List ℕ} {start stop : ℕ}

/-- A window in bounds that begins and ends in its own majority utterance. -/
structure EndsInMajority (mainUtts : List ℕ) (window : ℕ × ℕ) : Prop where
  nonempty : window.1 < window.2
  bounded : window.2 ≤ mainUtts.length
  first : mainUtts[window.1]? = some (majorityValue (mainUtts.extract window.1 window.2))
  last : mainUtts[window.2 - 1]? = some (majorityValue (mainUtts.extract window.1 window.2))

theorem extract_append_extract {middle : ℕ} (first : start ≤ middle) (second : middle ≤ stop) :
    mainUtts.extract start middle ++ mainUtts.extract middle stop =
      mainUtts.extract start stop := by
  simp only [List.extract_eq_take_drop]
  rw [show stop - start = (middle - start) + (stop - middle) by omega, List.take_add,
    List.drop_drop, Nat.add_sub_of_le first]

theorem projectWindow_endsInMajority (nonempty : start < stop) (bound : stop ≤ mainUtts.length) :
    EndsInMajority mainUtts (projectWindow mainUtts start stop) := by
  have projects := projectWindow_projectsTo nonempty bound
  generalize projectWindow mainUtts start stop = window at projects ⊢
  have inside := projects.nonempty
  have own : majorityValue (mainUtts.extract window.1 window.2) =
      majorityValue (mainUtts.extract start stop) := by
    refine majorityValue_of_part ?_ ?_ projects.notFront projects.notBack
    · rw [extract_append_extract projects.start_le inside.le,
        extract_append_extract (projects.start_le.trans inside.le) projects.le_stop]
    · rw [List.head?_eq_getElem?, getElem?_extract, if_pos (by omega), Nat.add_zero]
      exact projects.first
  refine ⟨inside, projects.le_stop.trans bound, ?_, ?_⟩
  · rw [own]
    exact projects.first
  · rw [own]
    exact projects.last

end Projection

section Score

variable [UnicodeCase]

/-- The overlap of a window with the gold tokens, as bags. -/
def windowOverlap (gold main : List String) (window : ℕ × ℕ) : ℤ :=
  bagOverlap gold (main.extract window.1 window.2)

def windowMatches (gold main : List String) (window : ℕ × ℕ) : ℤ :=
  (levenshteinAlign matchFn (main.extract window.1 window.2) gold).countP AlignItem.isMatched

def windowWaste (gold main : List String) (window : ℕ × ℕ) : ℤ :=
  (window.2 - window.1 : ℤ) - windowOverlap gold main window

/-- Overlap first, then aligned matches, then the end, then little waste. -/
abbrev Score := ℤ ×ₗ ℤ ×ₗ ℕ ×ₗ ℤᵒᵈ

def score (gold main : List String) (window : ℕ × ℕ) : Score :=
  toLex (windowOverlap gold main window, toLex (windowMatches gold main window,
    toLex (window.2, OrderDual.toDual (windowWaste gold main window))))

variable {gold main : List String} {window other : ℕ × ℕ}

theorem score_lt_iff : score gold main window < score gold main other ↔
    windowOverlap gold main window < windowOverlap gold main other ∨
      windowOverlap gold main window = windowOverlap gold main other ∧
        (windowMatches gold main window < windowMatches gold main other ∨
          windowMatches gold main window = windowMatches gold main other ∧
            (window.2 < other.2 ∨ window.2 = other.2 ∧
              windowWaste gold main other < windowWaste gold main window)) := by
  simp only [score, Prod.Lex.toLex_lt_toLex, OrderDual.toDual_lt_toDual]

/-- The state of the search after the greatest window so far. -/
def BestSegment.ofWindow (gold main : List String) : Option (ℕ × ℕ) → BestSegment
  | none => ⟨(0, min gold.length main.length), -1, none, -1⟩
  | some window => ⟨window, windowOverlap gold main window, some (windowWaste gold main window),
      windowMatches gold main window⟩

theorem BestSegment.consider_some (kept window : ℕ × ℕ) :
    (ofWindow gold main (some kept)).consider gold main window =
      if windowOverlap gold main kept < windowOverlap gold main window then
        ofWindow gold main (some window)
      else if windowOverlap gold main window = windowOverlap gold main kept then
        if windowMatches gold main kept < windowMatches gold main window then
          { ofWindow gold main (some window) with overlap := windowOverlap gold main kept }
        else if windowMatches gold main window = windowMatches gold main kept then
          if kept.2 < window.2 then
            { ofWindow gold main (some window) with
              overlap := windowOverlap gold main kept
              alignMatches := windowMatches gold main kept }
          else if window.2 = kept.2 ∧
              decide (windowWaste gold main window < windowWaste gold main kept) then
            { ofWindow gold main (some window) with
              overlap := windowOverlap gold main kept
              alignMatches := windowMatches gold main kept }
          else ofWindow gold main (some kept)
        else ofWindow gold main (some kept)
      else ofWindow gold main (some kept) :=
  rfl

/-- The search takes a window exactly if its score is greater. -/
theorem BestSegment.consider_ofWindow (best : Option (ℕ × ℕ)) (window : ℕ × ℕ) :
    (ofWindow gold main best).consider gold main window =
      ofWindow gold main (best.elim (some window) fun kept =>
        if score gold main kept < score gold main window then some window else some kept) := by
  cases best with
  | none =>
      have above : (-1 : ℤ) < windowOverlap gold main window :=
        (Int.negSucc_lt_zero 0).trans_le (Int.natCast_nonneg _)
      unfold consider
      exact if_pos above
  | some kept =>
      rw [consider_some, Option.elim_some]
      by_cases better : score gold main kept < score gold main window
      · rw [if_pos better]
        rcases score_lt_iff.mp better with less | ⟨sameOverlap, less | ⟨sameMatches, atEnd⟩⟩
        · rw [if_pos less]
        · rw [if_neg sameOverlap.not_lt, if_pos sameOverlap.symm, if_pos less, sameOverlap]
          rfl
        · rw [if_neg sameOverlap.not_lt, if_pos sameOverlap.symm, if_neg sameMatches.not_lt,
            if_pos sameMatches.symm]
          rcases atEnd with later | ⟨sameEnd, less⟩
          · rw [if_pos later, sameOverlap, sameMatches]
            rfl
          · rw [if_neg sameEnd.not_lt, if_pos ⟨sameEnd.symm, decide_eq_true less⟩, sameOverlap,
              sameMatches]
            rfl
      · rw [if_neg better]
        rw [score_lt_iff] at better
        split_ifs with less sameOverlap lessMatches sameMatches later atEnd
        · exact absurd (Or.inl less) better
        · exact absurd (Or.inr ⟨sameOverlap.symm, Or.inl lessMatches⟩) better
        · exact absurd (Or.inr ⟨sameOverlap.symm, Or.inr ⟨sameMatches.symm, Or.inl later⟩⟩) better
        · exact absurd (Or.inr ⟨sameOverlap.symm, Or.inr ⟨sameMatches.symm,
            Or.inr ⟨atEnd.1.symm, of_decide_eq_true atEnd.2⟩⟩⟩) better
        · rfl
        · rfl
        · rfl

/-- The search keeps the first of the windows with the greatest score. -/
theorem foldl_consider (windows : List (ℕ × ℕ)) :
    windows.foldl (BestSegment.consider gold main) (BestSegment.ofWindow gold main none) =
      BestSegment.ofWindow gold main (windows.argmax (score gold main)) := by
  induction windows using List.reverseRecOn with
  | nil => rfl
  | append_singleton windows window ih =>
      rw [List.foldl_append, ih, List.foldl_cons, List.foldl_nil, BestSegment.consider_ofWindow,
        List.argmax_concat]
      cases windows.argmax (score gold main) with
      | none => rfl
      | some kept => rfl

end Score

section Best

variable {gold main window : List String} {mainUtts : List ℕ}

/-- Two bags overlap if they share a token. -/
theorem bagOverlap_pos_iff : 0 < bagOverlap gold window ↔ ∃ token ∈ gold, token ∈ window := by
  unfold bagOverlap
  rw [Nat.pos_iff_ne_zero, ne_eq, List.sum_eq_zero_iff]
  constructor
  · intro notAll
    by_contra none
    apply notAll
    intro count isCount
    rcases List.mem_map.mp isCount with ⟨token, isToken, rfl⟩
    have notGold : token ∉ gold := fun inGold => none ⟨token, inGold, List.mem_dedup.mp isToken⟩
    rw [List.count_eq_zero_of_not_mem notGold, Nat.min_zero]
  · rintro ⟨token, inGold, inWindow⟩ all
    have here := all _ (List.mem_map_of_mem (List.mem_dedup.mpr inWindow))
    have goldCount := List.count_pos_iff.mpr inGold
    have windowCount := List.count_pos_iff.mpr inWindow
    omega

/-- A projected window of one of the spans that are tried. -/
def Projected (goldLen : ℕ) (mainUtts : List ℕ) (window : ℕ × ℕ) : Prop :=
  ∃ start span, max (goldLen - 2) 1 ≤ span ∧ span ≤ min (goldLen + 2) mainUtts.length ∧
    start + span ≤ mainUtts.length ∧ window = projectWindow mainUtts start (start + span)

def projectedWindows (goldLen : ℕ) (mainUtts : List ℕ) : List (ℕ × ℕ) :=
  (candidateWindows goldLen mainUtts.length).map fun window =>
    projectWindow mainUtts window.1 window.2

theorem mem_projectedWindows {goldLen : ℕ} {window : ℕ × ℕ} :
    window ∈ projectedWindows goldLen mainUtts ↔ Projected goldLen mainUtts window := by
  unfold projectedWindows candidateWindows Projected
  simp only [List.mem_map, List.mem_flatMap, List.mem_range'_1, List.mem_range]
  constructor
  · rintro ⟨_, ⟨span, ⟨least, most⟩, start, inside, rfl⟩, rfl⟩
    exact ⟨start, span, least, by omega, by omega, rfl⟩
  · rintro ⟨start, span, least, most, inside, rfl⟩
    exact ⟨_, ⟨span, ⟨least, by omega⟩, start, by omega, rfl⟩, rfl⟩

theorem Projected.endsInMajority {goldLen : ℕ} {window : ℕ × ℕ}
    (projected : Projected goldLen mainUtts window) : EndsInMajority mainUtts window := by
  rcases projected with ⟨start, span, least, _, inside, rfl⟩
  exact projectWindow_endsInMajority (by omega) inside

variable [UnicodeCase]

/-- The search gives the greatest projected window, unless it shares no token with the gold
utterance. -/
theorem findBestSegment_eq (someGold : gold ≠ []) (someMain : main ≠ [])
    (sameLength : main.length = mainUtts.length) :
    findBestSegment gold main mainUtts =
      (((projectedWindows gold.length mainUtts).argmax (score gold main)).filter fun window =>
        0 < windowOverlap gold main window).getD (0, 0) := by
  have searched : ¬ (gold.isEmpty || main.isEmpty) := by
    simp [someGold, someMain]
  have considered : (candidateWindows gold.length main.length).foldl
      (fun best window =>
        if (projectWindow mainUtts window.1 window.2).2 ≤
            (projectWindow mainUtts window.1 window.2).1 then best
        else best.consider gold main (projectWindow mainUtts window.1 window.2))
      (BestSegment.ofWindow gold main none) =
        BestSegment.ofWindow gold main
          ((projectedWindows gold.length mainUtts).argmax (score gold main)) := by
    rw [← foldl_consider, projectedWindows, List.foldl_map, ← sameLength]
    refine List.foldl_ext _ _ _ fun best window member => ?_
    rcases mem_candidateWindows member with ⟨nonempty, bound⟩
    have ends := projectWindow_endsInMajority nonempty (sameLength ▸ bound)
    exact if_neg (not_le.mpr ends.nonempty)
  have kept : findBestSegment gold main mainUtts =
      if (BestSegment.ofWindow gold main
        ((projectedWindows gold.length mainUtts).argmax (score gold main))).overlap ≤ 0 then (0, 0)
      else (BestSegment.ofWindow gold main
        ((projectedWindows gold.length mainUtts).argmax (score gold main))).window := by
    rw [← considered]
    exact if_neg searched
  rw [kept]
  cases (projectedWindows gold.length mainUtts).argmax (score gold main) with
  | none => rfl
  | some best =>
      rw [Option.filter_some]
      by_cases positive : 0 < windowOverlap gold main best
      · rw [if_pos (decide_eq_true positive)]
        exact if_neg (not_le.mpr positive)
      · have notAbove : ¬ decide (0 < windowOverlap gold main best) = true := by
          simpa using positive
        rw [if_neg notAbove]
        exact if_pos (not_lt.mp positive)

/-- A window that none of the others beats. -/
structure BestWindow (gold main : List String) (mainUtts : List ℕ) (window : ℕ × ℕ) : Prop where
  ends : EndsInMajority mainUtts window
  projected : Projected gold.length mainUtts window
  greatest : ∀ other, Projected gold.length mainUtts other →
    score gold main other ≤ score gold main window

/-- Some projected window shares a token with the gold utterance. -/
def SharesToken (gold main : List String) (mainUtts : List ℕ) : Prop :=
  ∃ window, Projected gold.length mainUtts window ∧
    ∃ token ∈ gold, token ∈ main.extract window.1 window.2

theorem findBestSegment_cases (someGold : gold ≠ []) (someMain : main ≠ [])
    (sameLength : main.length = mainUtts.length) :
    ¬ SharesToken gold main mainUtts ∧ findBestSegment gold main mainUtts = (0, 0) ∨
      SharesToken gold main mainUtts ∧
        BestWindow gold main mainUtts (findBestSegment gold main mainUtts) := by
  rw [findBestSegment_eq someGold someMain sameLength]
  have shares : ∀ window : ℕ × ℕ, 0 < windowOverlap gold main window ↔
      ∃ token ∈ gold, token ∈ main.extract window.1 window.2 := by
    intro window
    rw [← bagOverlap_pos_iff, windowOverlap, Int.natCast_pos]
  cases greatest : (projectedWindows gold.length mainUtts).argmax (score gold main) with
  | none =>
      left
      refine ⟨?_, rfl⟩
      rintro ⟨window, projected, _⟩
      rw [List.argmax_eq_none] at greatest
      have member := mem_projectedWindows.mpr projected
      rw [greatest] at member
      cases member
  | some best =>
      have isProjected := mem_projectedWindows.mp (List.argmax_mem greatest)
      have above : ∀ other, Projected gold.length mainUtts other →
          score gold main other ≤ score gold main best := fun other projected =>
        List.le_of_mem_argmax (mem_projectedWindows.mpr projected) greatest
      by_cases positive : 0 < windowOverlap gold main best
      · right
        rw [Option.filter_some, if_pos (decide_eq_true positive), Option.getD_some]
        exact ⟨⟨best, isProjected, (shares best).mp positive⟩,
          isProjected.endsInMajority, isProjected, above⟩
      · left
        rw [Option.filter_some, if_neg (by simpa using positive)]
        refine ⟨?_, rfl⟩
        rintro ⟨window, projected, token⟩
        have less := not_lt.mpr (above window projected)
        apply less
        rw [score_lt_iff]
        have here := (shares window).mpr token
        omega

/-- The search is right about a gold utterance exactly if some projected window has one of its
tokens, should the main utterances have one at all. -/
theorem findBestSegment_best_iff (someGold : gold ≠ []) (someMain : main ≠ [])
    (sameLength : main.length = mainUtts.length) :
    ((findBestSegment gold main mainUtts = (0, 0) ↔ ∀ token ∈ gold, token ∉ main) ∧
        ((∃ token ∈ gold, token ∈ main) →
          BestWindow gold main mainUtts (findBestSegment gold main mainUtts))) ↔
      ((∃ token ∈ gold, token ∈ main) → SharesToken gold main mainUtts) := by
  have occurs : SharesToken gold main mainUtts → ∃ token ∈ gold, token ∈ main := by
    rintro ⟨window, _, token, inGold, inWindow⟩
    refine ⟨token, inGold, ?_⟩
    rw [List.extract_eq_take_drop] at inWindow
    exact List.mem_of_mem_drop (List.mem_of_mem_take inWindow)
  have none_iff : (∀ token ∈ gold, token ∉ main) ↔ ¬ ∃ token ∈ gold, token ∈ main := by
    push Not
    rfl
  rw [none_iff]
  rcases findBestSegment_cases someGold someMain sameLength with ⟨alone, empty⟩ | ⟨shared, best⟩
  · constructor
    · rintro ⟨missing, _⟩ token
      exact absurd token (missing.mp empty)
    · intro found
      have missing : ¬ ∃ token ∈ gold, token ∈ main := fun token => alone (found token)
      exact ⟨iff_of_true empty missing, fun token => absurd token missing⟩
  · refine iff_of_true ⟨iff_of_false ?_ (not_not.mpr (occurs shared)), fun _ => best⟩
      fun _ => shared
    intro empty
    have nonempty := best.ends.nonempty
    rw [empty] at nonempty
    exact lt_irrefl _ nonempty

end Best

section

open Batchalign.Chat.Documented

theorem crossingWindow_best :
    findBestSegment ["the", "dog"] ["a", "the", "dog"] [0, 1, 1] = (1, 3) ∧
      BestWindow ["the", "dog"] ["a", "the", "dog"] [0, 1, 1]
        (findBestSegment ["the", "dog"] ["a", "the", "dog"] [0, 1, 1]) :=
  ⟨by decide +kernel,
    ((findBestSegment_best_iff (by simp) (by simp) rfl).mpr fun _ =>
      ⟨(1, 3), ⟨1, 2, by decide, by decide, by decide, by decide⟩, "the", by simp, by decide⟩).2
      ⟨"the", by simp, by simp⟩⟩

/-- Every span that is tried is longer than the main utterances. -/
theorem longGold_empty :
    ¬ (findBestSegment ["the", "dog", "barks", "twice"] ["dog"] [0] = (0, 0) ↔
      ∀ token ∈ ["the", "dog", "barks", "twice"], token ∉ ["dog"]) := by
  have empty : findBestSegment ["the", "dog", "barks", "twice"] ["dog"] [0] = (0, 0) := by
    decide
  intro claimed
  exact claimed.mp empty "dog" (by simp) (by simp)

end

end Batchalign.Compare
