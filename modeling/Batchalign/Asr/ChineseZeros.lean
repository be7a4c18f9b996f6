import Mathlib
import Batchalign.Asr.Num2Chinese

/-!
# Zero characters in Chinese numerals

Zero digits between two digits that are not zero ask for one zero character if they reach into
the four-digit group of the lower digit, or hold a whole group of zeros. `num2chinese` settles
the first in `convert_group` and the second in the loop over the groups, and writes a zero
character for each (`zeroCounts_num2chinese`). A gap of both kinds gets two.
-/

namespace Batchalign.Asr

open Positional

section Gaps

/-- Two digits of a number that are not zero and have only zeros between them, by their positions
from the right, the lower one in front. -/
abbrev Gap := ℕ × ℕ

/-- The gaps in front of the digits behind the position `above`. -/
def gapsFrom : ℕ → List ℕ → List Gap
  | _, [] => []
  | above, digit :: rest =>
      if digit = 0 then gapsFrom above rest
      else (rest.length, above) :: gapsFrom rest.length rest

/-- The gaps of digits that do not start with a zero. -/
def digitGaps : List ℕ → List Gap
  | [] => []
  | _ :: rest => gapsFrom rest.length rest

/-- The gap has zeros in the group of its lower digit. -/
def Gap.ReachesGroup (gap : Gap) : Prop := gap.1 + 1 < gap.2 ∧ gap.1 % 4 ≠ 3

/-- The gap holds a group of zeros. -/
def Gap.HoldsGroup (gap : Gap) : Prop := 4 * (gap.1 / 4 + 2) ≤ gap.2

instance (gap : Gap) : Decidable gap.ReachesGroup := inferInstanceAs (Decidable (_ ∧ _))

instance (gap : Gap) : Decidable gap.HoldsGroup := inferInstanceAs (Decidable (_ ≤ _))

/-- The zero characters that a gap asks for. -/
def Gap.neededZeros (gap : Gap) : ℕ := if gap.ReachesGroup ∨ gap.HoldsGroup then 1 else 0

/-- The zero characters of the two loops. -/
def Gap.writtenZeros (gap : Gap) : ℕ :=
  (if gap.HoldsGroup then 1 else 0) + (if gap.ReachesGroup then 1 else 0)

theorem writtenZeros_eq_neededZeros_iff {gap : Gap} :
    gap.writtenZeros = gap.neededZeros ↔ ¬ (gap.ReachesGroup ∧ gap.HoldsGroup) := by
  unfold Gap.writtenZeros Gap.neededZeros
  by_cases reaches : gap.ReachesGroup <;> by_cases holds : gap.HoldsGroup <;>
    simp [reaches, holds]

theorem gapsFrom_zeros {zeros : List ℕ} (all : ∀ digit ∈ zeros, digit = 0) (above : ℕ)
    (rest : List ℕ) : gapsFrom above (zeros ++ rest) = gapsFrom above rest := by
  induction zeros with
  | nil => rfl
  | cons digit zeros ih =>
      rcases List.forall_mem_cons.mp all with ⟨zero, later⟩
      rw [List.cons_append, gapsFrom, if_pos zero, ih later]

end Gaps

section Scan

/-- The zero characters in front of each digit so far, and since the last one. A ten without a
digit in front of it is a digit. -/
structure ZeroScan where
  counts : List ℕ
  zeros : ℕ
  afterDigit : Bool

def ZeroScan.next (scan : ZeroScan) (c : Char) : ZeroScan :=
  match numeralMark c with
  | some .zero => ⟨scan.counts, scan.zeros + 1, false⟩
  | some (.digit _) => ⟨scan.counts ++ [scan.zeros], 0, true⟩
  | some (.unit factor) =>
      if factor = 10 ∧ scan.afterDigit = false then ⟨scan.counts ++ [scan.zeros], 0, false⟩
      else ⟨scan.counts, scan.zeros, false⟩
  | _ => ⟨scan.counts, scan.zeros, false⟩

def ZeroScan.close (scan : ZeroScan) : List ℕ := scan.counts ++ [scan.zeros]

/-- The zero characters in front of each digit of a numeral, and behind the last. -/
def zeroCounts (chars : List Char) : List ℕ :=
  (chars.foldl ZeroScan.next ⟨[], 0, false⟩).close

theorem scan_zeroText (counts : List ℕ) (zeros : ℕ) (flag : Bool) :
    (zeroText flag).foldl ZeroScan.next ⟨counts, zeros, false⟩ =
      ⟨counts, zeros + flag.toNat, false⟩ := by
  cases flag with
  | false => rfl
  | true => rfl

/-- A digit that is written closes a count. -/
theorem scan_digitText {digit position : ℕ} {opens : Bool} {text : List Char}
    (bounded : digit < 10) (nonzero : digit ≠ 0) (place : position < 4)
    (made : digitText digit position opens = some text) (counts : List ℕ) (zeros : ℕ) :
    text.foldl ZeroScan.next ⟨counts, zeros, false⟩ =
      ⟨counts ++ [zeros], 0, decide (position = 0)⟩ := by
  rcases Option.bind_eq_some_iff.mp (numeralMark_cBasic digit bounded nonzero) with
    ⟨basic, isBasic, basicMark⟩
  cases position with
  | zero =>
      rw [digitText, isBasic, Option.map_some, Option.some_inj] at made
      subst made
      simp [ZeroScan.next, basicMark]
  | succ above =>
      rcases Option.bind_eq_some_iff.mp (numeralMark_cUnit1 above (by omega)) with
        ⟨unit, isUnit, unitMark⟩
      rw [digitText] at made
      split at made
      · rename_i bare
        rcases bare with ⟨rfl, _, _⟩
        rw [isUnit, Option.map_some, Option.some_inj] at made
        subst made
        simp [ZeroScan.next, unitMark]
      · rw [isBasic, isUnit] at made
        cases made
        simp [ZeroScan.next, basicMark, unitMark]

theorem scan_largeUnit {script : ChineseScript} {below : ℕ} {unit : List Char}
    (few : below ≤ 4) (made : largeUnit script below = some unit) (counts : List ℕ) (zeros : ℕ)
    (flag : Bool) :
    unit.foldl ZeroScan.next ⟨counts, zeros, flag⟩ =
      ⟨counts, zeros, flag && decide (below = 0)⟩ := by
  unfold largeUnit at made
  split at made
  · rename_i positive
    rcases Option.bind_eq_some_iff.mp (numeralMark_cUnit2 script (below - 1) (by omega)) with
      ⟨mark, isMark, unitMark⟩
    rw [isMark, Option.map_some, Option.some_inj] at made
    subst made
    simp [ZeroScan.next, unitMark, positive.ne']
  · cases made
    have zero : below = 0 := by omega
    simp [zero]

/-- A scan goes on with a count that is at least what has been counted. -/
theorem foldl_next_counts (chars : List Char) (scan : ZeroScan) :
    ∃ count more, (chars.foldl ZeroScan.next scan).close = scan.counts ++ count :: more ∧
      scan.zeros ≤ count := by
  induction chars generalizing scan with
  | nil => exact ⟨scan.zeros, [], rfl, le_rfl⟩
  | cons c chars ih =>
      rcases ih (scan.next c) with ⟨count, more, result, least⟩
      rw [List.foldl_cons, result]
      have step : (scan.next c).counts = scan.counts ∧ scan.zeros ≤ (scan.next c).zeros ∨
          (scan.next c).counts = scan.counts ++ [scan.zeros] := by
        unfold ZeroScan.next
        split
        · exact Or.inl ⟨rfl, Nat.le_succ _⟩
        · exact Or.inr rfl
        · split
          · exact Or.inr rfl
          · exact Or.inl ⟨rfl, le_rfl⟩
        · exact Or.inl ⟨rfl, le_rfl⟩
      rcases step with ⟨same, grown⟩ | closed
      · exact ⟨count, more, by rw [same], grown.trans least⟩
      · exact ⟨scan.zeros, count :: more, by rw [closed, List.append_assoc]; rfl, le_rfl⟩

end Scan

section Loops

/-- A group of `size` digits has been scanned: its counts are those of its gaps, and a zero group
between the last digit and the next group is still open. -/
structure GroupScanned (above below : ℕ) (digits rest : List ℕ) (counts : List ℕ)
    (scan : ZeroScan) (above' : ℕ) : Prop where
  counted : ∃ own, scan.counts = counts ++ own ∧
    (gapsFrom above (digits ++ rest)).map Gap.writtenZeros =
      own ++ (gapsFrom above' rest).map Gap.writtenZeros
  zeros : scan.zeros = if 4 * (below + 2) ≤ above' then 1 else 0
  place : 4 * below ≤ above'
  lower : above' ≤ above
  inside : horner 10 digits ≠ 0 → above' < 4 * (below + 1)

/-- What the flags of the two loops say about the gap in front of a digit. -/
theorem writtenZeros_of_place {position size above below : ℕ} {zeroRun : Bool}
    (isPosition : position = size + 4 * below) (short : size < 4)
    (run : zeroRun = decide (size + 1 < 4 ∧ 4 * below + (size + 1) < above)) :
    Gap.writtenZeros (position, above) =
      (if 4 * (below + 2) ≤ above then 1 else 0) + zeroRun.toNat := by
  have group : position / 4 = below := by omega
  have reaches : Gap.ReachesGroup (position, above) ↔
      size + 1 < 4 ∧ 4 * below + (size + 1) < above := by
    unfold Gap.ReachesGroup
    dsimp only
    omega
  unfold Gap.writtenZeros Gap.HoldsGroup
  simp only [reaches, group, run, Bool.toNat]
  split <;> simp_all

/-- The digits of a group behind a digit that has been written. -/
theorem convertDigits_scan {hasPreceding written zeroRun : Bool}
    (begun : (hasPreceding || written) = true) {digits rest : List ℕ} {above below : ℕ}
    (bounded : ∀ digit ∈ digits, digit < 10) (short : digits.length ≤ 4)
    (behind : rest.length = 4 * below) (place : 4 * below + digits.length ≤ above)
    (run : zeroRun = decide (digits.length < 4 ∧ 4 * below + digits.length < above))
    {text : List Char} (made : convertDigits hasPreceding written zeroRun digits = some text)
    (counts : List ℕ) {flag : Bool} (unit : flag = true → digits = []) :
    ∃ above', GroupScanned above below digits rest counts
      (text.foldl ZeroScan.next ⟨counts, if 4 * (below + 2) ≤ above then 1 else 0, flag⟩)
      above' := by
  induction digits generalizing written zeroRun above text counts flag with
  | nil =>
      cases made
      exact ⟨above, ⟨[], by simp⟩, rfl, place, le_rfl, fun nonzero => absurd rfl nonzero⟩
  | cons digit digits ih =>
      rcases List.forall_mem_cons.mp bounded with ⟨first, later⟩
      rw [List.length_cons] at short place run
      have noFlag : flag = false := by
        by_contra isFlag
        cases unit (by simpa using isFlag)
      subst noFlag
      by_cases zero : digit = 0
      · rw [convertDigits, if_pos zero] at made
        have running : (zeroRun || hasPreceding || written) =
            decide (digits.length < 4 ∧ 4 * below + digits.length < above) := by
          rw [Bool.or_assoc, begun, Bool.or_true]
          exact (decide_eq_true (by omega)).symm
        have noUnit : false = true → digits = [] := by simp
        rcases ih begun later (by omega) (by omega) running made counts noUnit with
          ⟨above', ⟨own, scanned, gaps⟩, zeros, place', lower, inside⟩
        refine ⟨above', ⟨own, scanned, ?_⟩, zeros, place', lower, ?_⟩
        · rw [List.cons_append, gapsFrom, if_pos zero, gaps]
        · rw [horner_cons, zero, Nat.zero_mul, Nat.zero_add]
          exact inside
      · rcases (convertDigits_nonzero zero).mp made with ⟨own, isOwn, more, isMore, rfl⟩
        have position : (digits ++ rest).length = digits.length + 4 * below := by
          rw [List.length_append, behind]
        have begun' : (hasPreceding || true) = true := by simp
        have running : false = decide (digits.length < 4 ∧
            4 * below + digits.length < (digits ++ rest).length) := by
          rw [position]
          exact (decide_eq_false (by omega)).symm
        have closed : (if 4 * (below + 2) ≤ (digits ++ rest).length then 1 else 0) = 0 := by
          rw [position]
          exact if_neg (by omega)
        have unit' : decide (digits.length = 0) = true → digits = [] := by simp
        have gap : Gap.writtenZeros ((digits ++ rest).length, above) =
            (if 4 * (below + 2) ≤ above then 1 else 0) + zeroRun.toNat :=
          writtenZeros_of_place position (by omega) run
        rcases ih begun' later (by omega) (by omega) running isMore
            (counts ++ [(if 4 * (below + 2) ≤ above then 1 else 0) + zeroRun.toNat]) unit' with
          ⟨above', ⟨own', scanned, gaps⟩, zeros, place', lower, _⟩
        rw [closed] at scanned zeros
        have head := scan_digitText first zero (by omega) isOwn counts
          ((if 4 * (below + 2) ≤ above then 1 else 0) + zeroRun.toNat)
        rw [List.foldl_append, List.foldl_append, scan_zeroText, head]
        refine ⟨above',
          ⟨((if 4 * (below + 2) ≤ above then 1 else 0) + zeroRun.toNat) :: own', ?_, ?_⟩,
          zeros, place', lower.trans (by omega), fun _ => by omega⟩
        · rw [scanned, List.append_assoc]
          rfl
        · rw [List.cons_append, gapsFrom, if_neg zero, List.map_cons, gaps, gap]
          rfl

/-- Behind a group that is not zero, and its unit, no zero group is open. -/
theorem GroupScanned.unit {above above' : ℕ} {digits : List ℕ} {groups : List (List ℕ)}
    {counts : List ℕ} {scan : ZeroScan}
    (scanned : GroupScanned above groups.length digits groups.flatten counts scan above')
    (inside : above' < 4 * (groups.length + 1)) {script : ChineseScript} {mark : List Char}
    (few : groups.length ≤ 4) (isMark : largeUnit script groups.length = some mark) :
    ∃ own flag, mark.foldl ZeroScan.next scan = ⟨counts ++ own, 0, flag⟩ ∧
      (flag = true → groups = []) ∧
      (gapsFrom above (digits ++ groups.flatten)).map Gap.writtenZeros =
        own ++ (gapsFrom above' groups.flatten).map Gap.writtenZeros := by
  rcases scanned with ⟨⟨own, isCounts, gaps⟩, zeros, _, _, _⟩
  have closed : (if 4 * (groups.length + 2) ≤ above' then 1 else 0) = 0 := if_neg (by omega)
  rcases scan with ⟨counts', zeros', flag⟩
  dsimp only at isCounts zeros
  rw [closed] at zeros
  subst isCounts zeros
  exact ⟨own, flag && decide (groups.length = 0), scan_largeUnit few isMark _ _ _, by simp, gaps⟩

/-- The groups behind a digit that has been written. -/
theorem convertGroups_scan {script : ChineseScript} {wasZero : Bool} {groups : List (List ℕ)}
    (bounded : ∀ group ∈ groups, ∀ digit ∈ group, digit < 10)
    (lengths : ∀ group ∈ groups, group.length = 4) (few : groups.length ≤ 5) {above : ℕ}
    (place : 4 * groups.length ≤ above)
    (run : wasZero = decide (4 * (groups.length + 1) ≤ above)) {text : List Char}
    (made : convertGroups script true wasZero groups = some text) (counts : List ℕ) {flag : Bool}
    (unit : flag = true → groups = []) :
    ∃ flag', text.foldl ZeroScan.next ⟨counts, 0, flag⟩ =
      ⟨counts ++ (gapsFrom above groups.flatten).map Gap.writtenZeros, 0, flag'⟩ := by
  induction groups generalizing wasZero above text counts flag with
  | nil =>
      cases made
      exact ⟨flag, by simp [gapsFrom]⟩
  | cons group groups ih =>
      rcases List.forall_mem_cons.mp bounded with ⟨first, later⟩
      rcases List.forall_mem_cons.mp lengths with ⟨four, laterFour⟩
      have noFlag : flag = false := by
        by_contra isFlag
        cases unit (by simpa using isFlag)
      subst noFlag
      rw [List.length_cons] at few place run
      rw [List.flatten_cons]
      have behind := length_flatten_blocks laterFour
      by_cases zero : horner 10 group = 0
      · rw [convertGroups, if_pos zero] at made
        have running : (wasZero || true) = decide (4 * (groups.length + 1) ≤ above) := by
          rw [Bool.or_true]
          exact (decide_eq_true place).symm
        rw [gapsFrom_zeros ((horner_eq_zero_iff (by norm_num)).mp zero)]
        exact ih later laterFour (by omega) (by omega) running made counts (by simp)
      · rcases (convertGroups_nonzero zero).mp made with
          ⟨own, isOwn, mark, isMark, more, isMore, rfl⟩
        have opened : wasZero.toNat = if 4 * (groups.length + 2) ≤ above then 1 else 0 := by
          rw [run]
          split <;> simp_all
        have quiet : false = decide (group.length < 4 ∧
            4 * groups.length + group.length < above) := by simp [four]
        have noUnit : false = true → group = [] := by simp
        rcases convertDigits_scan rfl first four.le behind (by omega) quiet isOwn counts
            noUnit with ⟨above', scanned⟩
        have inside : above' < 4 * (groups.length + 1) := scanned.inside zero
        rcases scanned.unit inside (by omega) isMark with ⟨counted, flag, marked, noUnit', gaps⟩
        have quiet' : false = decide (4 * (groups.length + 1) ≤ above') :=
          (decide_eq_false (by omega)).symm
        rcases ih later laterFour (by omega) scanned.place quiet' isMore (counts ++ counted)
            noUnit' with ⟨flag', result⟩
        rw [List.foldl_append, List.foldl_append, List.foldl_append, scan_zeroText, Nat.zero_add,
          opened, marked, result]
        exact ⟨flag', by rw [gaps, List.append_assoc]⟩

/-- The zero characters of a numeral: none in front of the first digit and behind the last, and
those of the two loops in each gap. -/
theorem zeroCounts_num2chinese {num : UInt64} (positive : num ≠ 0) {script : ChineseScript}
    {text : String} (made : num2chinese num script = some text) :
    zeroCounts text.toList =
      0 :: (digitGaps (digitsOf 10 num.toNat)).map Gap.writtenZeros ++ [0] := by
  rcases digitGroups_num positive with
    ⟨group, groups, isGroups, nonempty, short, lengths, flat, few⟩
  have bounded : ∀ digit ∈ (group :: groups).flatten, digit < 10 := by
    intro digit member
    rw [flat] at member
    exact digitsOf_lt (by norm_num) member
  rcases List.exists_cons_of_ne_nil nonempty with ⟨digit, digits, rfl⟩
  have nonzero : digit ≠ 0 := by
    apply head?_digitsOf_ne_zero
    rw [← flat]
    rfl
  have positiveGroup : horner 10 (digit :: digits) ≠ 0 := by
    rw [Ne, horner_eq_zero_iff (by norm_num)]
    intro zeros
    exact nonzero (zeros digit List.mem_cons_self)
  rw [num2chinese, if_neg positive, isGroups] at made
  rcases Option.map_eq_some_iff.mp made with ⟨chars, isChars, rfl⟩
  rcases (convertGroups_nonzero positiveGroup).mp isChars with
    ⟨own, isOwn, mark, isMark, more, isMore, rfl⟩
  rcases (convertDigits_nonzero nonzero).mp isOwn with ⟨head, isHead, tail, isTail, rfl⟩
  rw [List.flatten_cons] at bounded flat
  rw [List.length_cons] at short few
  have behind := length_flatten_blocks lengths
  have position : (digits ++ groups.flatten).length = digits.length + 4 * groups.length := by
    rw [List.length_append, behind]
  have digitBounded : ∀ member ∈ digits, member < 10 := by
    intro member inside
    exact bounded member (by simp [inside])
  have quiet : false = decide (digits.length < 4 ∧
      4 * groups.length + digits.length < (digits ++ groups.flatten).length) := by
    rw [position]
    exact (decide_eq_false (by omega)).symm
  have noUnit : decide (digits.length = 0) = true → digits = [] := by simp
  rcases convertDigits_scan rfl digitBounded (by omega) behind (by omega) quiet isTail [0] noUnit
    with ⟨above, scanned⟩
  have lower := scanned.lower
  rw [position] at lower
  rcases scanned.unit (by omega) (by omega) isMark with ⟨counted, flag, marked, noUnit', gaps⟩
  have quiet' : false = decide (4 * (groups.length + 1) ≤ above) :=
    (decide_eq_false (by omega)).symm
  rcases convertGroups_scan (fun later isGroup member inside => bounded member
      (List.mem_append_right _ (List.mem_flatten.mpr ⟨later, isGroup, inside⟩)))
      lengths (by omega) scanned.place quiet' isMore ([0] ++ counted) noUnit' with ⟨flag', result⟩
  have closed : (if 4 * (groups.length + 2) ≤ (digits ++ groups.flatten).length then 1 else 0) =
      0 := by
    rw [position]
    exact if_neg (by omega)
  rw [closed] at marked
  have isDigit : digit < 10 := bounded digit (by simp)
  have first := scan_digitText isDigit nonzero (by omega) isHead [] 0
  have whole : (zeroText false ++ (zeroText false ++ (head ++ tail) ++ (mark ++ more))).foldl
      ZeroScan.next ⟨[], 0, false⟩ =
        ⟨[0] ++ counted ++ (gapsFrom above groups.flatten).map Gap.writtenZeros, 0, flag'⟩ := by
    rw [List.foldl_append, List.foldl_append, List.foldl_append, List.foldl_append,
      List.foldl_append, scan_zeroText, scan_zeroText]
    change more.foldl _ (mark.foldl _ (tail.foldl _ (head.foldl _ (⟨[], 0, false⟩ : ZeroScan)))) = _
    rw [first, List.nil_append, marked, result]
  rw [zeroCounts, String.toList_ofList, whole, ZeroScan.close, ← flat]
  change _ = 0 :: (gapsFrom (digits ++ groups.flatten).length (digits ++ groups.flatten)).map
    Gap.writtenZeros ++ [0]
  rw [gaps]
  simp

end Loops

section Canonical

/-- A numeral of the digits with one zero character in each gap that asks for one, and no other. -/
structure CanonicalZeros (digits : List ℕ) (chars : List Char) : Prop where
  counts : zeroCounts chars = 0 :: (digitGaps digits).map Gap.neededZeros ++ [0]
  single : ¬ ['零', '零'] <:+: chars
  first : chars.head? ≠ some '零'
  last : chars.getLast? ≠ some '零'

theorem neededZeros_le_one (gap : Gap) : gap.neededZeros ≤ 1 := by
  unfold Gap.neededZeros
  split <;> omega

theorem next_zero (scan : ZeroScan) : scan.next '零' = ⟨scan.counts, scan.zeros + 1, false⟩ := rfl

/-- The counts say all of it. -/
theorem canonicalZeros_of_counts {digits : List ℕ} {chars : List Char}
    (counts : zeroCounts chars = 0 :: (digitGaps digits).map Gap.neededZeros ++ [0]) :
    CanonicalZeros digits chars := by
  have few : ∀ count ∈ zeroCounts chars, count ≤ 1 := by
    intro count member
    rw [counts] at member
    simp only [List.mem_append, List.mem_cons, List.mem_map, List.not_mem_nil, or_false] at member
    rcases member with (rfl | ⟨gap, _, rfl⟩) | rfl
    · exact Nat.zero_le 1
    · exact neededZeros_le_one gap
    · exact Nat.zero_le 1
  refine ⟨counts, ?_, ?_, ?_⟩
  · rintro ⟨front, back, rfl⟩
    have split : zeroCounts (front ++ ['零', '零'] ++ back) =
        (back.foldl ZeroScan.next
          (((front.foldl ZeroScan.next ⟨[], 0, false⟩).next '零').next '零')).close := by
      rw [zeroCounts, List.foldl_append, List.foldl_append]
      rfl
    rcases foldl_next_counts back
        (((front.foldl ZeroScan.next ⟨[], 0, false⟩).next '零').next '零') with
      ⟨count, more, result, least⟩
    rw [next_zero, next_zero] at least
    have small := few count (by rw [split, result]; simp)
    dsimp only at least
    omega
  · intro headed
    rcases List.head?_eq_some_iff.mp headed with ⟨back, rfl⟩
    rcases foldl_next_counts back (ZeroScan.next ⟨[], 0, false⟩ '零') with
      ⟨count, more, result, least⟩
    have same : zeroCounts ('零' :: back) = count :: more := result
    rw [same, List.cons_append, List.cons.injEq] at counts
    rw [next_zero, counts.1] at least
    cases least
  · intro ended
    rcases List.getLast?_eq_some_iff.mp ended with ⟨front, rfl⟩
    rw [zeroCounts, List.foldl_append, List.foldl_cons, List.foldl_nil, next_zero,
      ZeroScan.close] at counts
    have last := congrArg List.getLast? counts
    rw [List.getLast?_concat, List.getLast?_concat] at last
    cases last

theorem canonicalZeros_iff {num : UInt64} (positive : num ≠ 0) {script : ChineseScript}
    {text : String} (made : num2chinese num script = some text) :
    CanonicalZeros (digitsOf 10 num.toNat) text.toList ↔
      ∀ gap ∈ digitGaps (digitsOf 10 num.toNat), ¬ (gap.ReachesGroup ∧ gap.HoldsGroup) := by
  have written := zeroCounts_num2chinese positive made
  constructor
  · intro canonical
    have same := canonical.counts
    rw [written, List.cons_append, List.cons_append, List.cons.injEq, List.append_cancel_right_eq]
      at same
    intro gap member
    exact writtenZeros_eq_neededZeros_iff.mp (List.map_inj_left.mp same.2 gap member)
  · intro single
    apply canonicalZeros_of_counts
    rw [written, List.map_inj_left.mpr fun gap member =>
      writtenZeros_eq_neededZeros_iff.mpr (single gap member)]

end Canonical

section Condition

/-- Two neighbouring groups, the upper one zero and the lower one with a zero in front. -/
def DoubleZero (upper lower : ℕ) : Prop := upper = 0 ∧ 0 < lower ∧ lower < 1000

instance (upper lower : ℕ) : Decidable (DoubleZero upper lower) :=
  inferInstanceAs (Decidable (_ ∧ _))

/-- What is asked of the groups behind a zero group (`wasZero`), or behind another one. -/
def NoDoubleZero (wasZero : Bool) (values : List ℕ) : Prop :=
  (wasZero → ∀ value ∈ values.head?, ¬ DoubleZero 0 value) ∧
    values.IsChain fun upper lower => ¬ DoubleZero upper lower

/-- A group starts with a zero if it is below a thousand. -/
theorem horner_lt_thousand_iff {digit : ℕ} {digits : List ℕ} (nonzero : digit ≠ 0)
    (bounded : ∀ member ∈ digit :: digits, member < 10) (short : digits.length < 4) :
    horner 10 (digit :: digits) < 1000 ↔ digits.length < 3 := by
  rcases List.forall_mem_cons.mp bounded with ⟨first, later⟩
  have rest := horner_lt (by norm_num) later
  rw [horner_cons]
  interval_cases length : digits.length <;> omega

/-- The rest of a group, where the gaps behind the group are decided by its last digit. -/
theorem gapsFrom_group {digits rest : List ℕ} {values : List ℕ} {above below : ℕ}
    (bounded : ∀ digit ∈ digits, digit < 10) (short : digits.length ≤ 4)
    (behind : rest.length = 4 * below) (place : 4 * below + digits.length ≤ above)
    (later : ∀ above, 4 * below ≤ above →
      ((∀ gap ∈ gapsFrom above rest, ¬ (gap.ReachesGroup ∧ gap.HoldsGroup)) ↔
        NoDoubleZero (decide (4 * (below + 1) ≤ above)) values)) :
    (∀ gap ∈ gapsFrom above (digits ++ rest), ¬ (gap.ReachesGroup ∧ gap.HoldsGroup)) ↔
      (4 * (below + 2) ≤ above → ¬ DoubleZero 0 (horner 10 digits)) ∧
        NoDoubleZero (decide (horner 10 digits = 0 ∧ 4 * (below + 1) ≤ above)) values := by
  induction digits generalizing above with
  | nil =>
      rw [List.nil_append, later above (by omega)]
      simp [DoubleZero]
  | cons digit digits ih =>
      have restBounded := (List.forall_mem_cons.mp bounded).2
      rw [List.length_cons] at short place
      by_cases zero : digit = 0
      · rw [List.cons_append, gapsFrom, if_pos zero, ih restBounded (by omega) (by omega),
          horner_cons, zero, Nat.zero_mul, Nat.zero_add]
      · have position : (digits ++ rest).length = digits.length + 4 * below := by
          rw [List.length_append, behind]
        have small := horner_lt_thousand_iff zero bounded (by omega)
        have nonzero : horner 10 (digit :: digits) ≠ 0 := by
          rw [Ne, horner_eq_zero_iff (by norm_num)]
          intro zeros
          exact zero (zeros digit List.mem_cons_self)
        have noFlag : ∀ value, decide (value = 0 ∧
            4 * (below + 1) ≤ (digits ++ rest).length) = false := by
          intro value
          rw [position]
          exact decide_eq_false (by omega)
        have closed : ¬ 4 * (below + 2) ≤ (digits ++ rest).length := by
          rw [position]
          omega
        have own : ¬ (Gap.ReachesGroup ((digits ++ rest).length, above) ∧
            Gap.HoldsGroup ((digits ++ rest).length, above)) ↔
              (4 * (below + 2) ≤ above → ¬ DoubleZero 0 (horner 10 (digit :: digits))) := by
          have group : (digits ++ rest).length / 4 = below := by omega
          have place' : (digits ++ rest).length % 4 = digits.length := by omega
          unfold Gap.ReachesGroup Gap.HoldsGroup DoubleZero
          dsimp only
          rw [group, place', position]
          omega
        rw [List.cons_append, gapsFrom, if_neg zero, List.forall_mem_cons, own,
          ih restBounded (by omega) (by omega), noFlag]
        simp only [closed, nonzero, false_imp_iff, true_and, false_and, decide_false]

theorem noDoubleZero_cons {wasZero : Bool} {value : ℕ} {values : List ℕ} :
    NoDoubleZero wasZero (value :: values) ↔
      (wasZero → ¬ DoubleZero 0 value) ∧ NoDoubleZero (decide (value = 0)) values := by
  have next : (∀ lower ∈ values.head?, ¬ DoubleZero value lower) ↔
      (value = 0 → ∀ lower ∈ values.head?, ¬ DoubleZero 0 lower) := by
    constructor
    · rintro all rfl
      exact all
    · intro all lower isNext double
      cases double.1
      exact all rfl lower isNext double
  rw [NoDoubleZero, NoDoubleZero, List.isChain_cons, next, List.head?_cons]
  simp only [Option.mem_some_iff, forall_eq', decide_eq_true_eq]

theorem noDoubleZero_false {values : List ℕ} : NoDoubleZero false values ↔
    values.IsChain fun upper lower => ¬ DoubleZero upper lower := by
  simp [NoDoubleZero]

theorem gapsFrom_groups {groups : List (List ℕ)} {above : ℕ}
    (bounded : ∀ group ∈ groups, ∀ digit ∈ group, digit < 10)
    (lengths : ∀ group ∈ groups, group.length = 4) (place : 4 * groups.length ≤ above) :
    (∀ gap ∈ gapsFrom above groups.flatten, ¬ (gap.ReachesGroup ∧ gap.HoldsGroup)) ↔
      NoDoubleZero (decide (4 * (groups.length + 1) ≤ above)) (groups.map (horner 10)) := by
  induction groups generalizing above with
  | nil => simp [gapsFrom, NoDoubleZero]
  | cons group groups ih =>
      rcases List.forall_mem_cons.mp bounded with ⟨first, later⟩
      rcases List.forall_mem_cons.mp lengths with ⟨four, laterFour⟩
      rw [List.length_cons] at place
      rw [List.flatten_cons, gapsFrom_group first four.le (length_flatten_blocks laterFour)
        (by omega) (fun above' => ih later laterFour)]
      have full : 4 * (groups.length + 1) ≤ above := place
      rw [List.map_cons, noDoubleZero_cons, List.length_cons]
      simp only [full, and_true, decide_eq_true_eq]

theorem digitGaps_num {num : UInt64} (positive : num ≠ 0) :
    (∀ gap ∈ digitGaps (digitsOf 10 num.toNat), ¬ (gap.ReachesGroup ∧ gap.HoldsGroup)) ↔
      (digitsOf 10000 num.toNat).IsChain fun upper lower => ¬ DoubleZero upper lower := by
  rcases digitGroups_num positive with ⟨group, groups, _, nonempty, short, lengths, flat, _⟩
  have values : (group :: groups).map (horner 10) = digitsOf 10000 num.toNat :=
    map_horner_blocks (by norm_num) (by norm_num) nonempty short lengths flat
  have bounded : ∀ member ∈ group :: groups, ∀ digit ∈ member, digit < 10 := by
    intro member isGroup digit inside
    have isDigit : digit ∈ digitsOf 10 num.toNat := by
      rw [← flat]
      exact List.mem_flatten.mpr ⟨member, isGroup, inside⟩
    exact digitsOf_lt (by norm_num) isDigit
  rcases List.forall_mem_cons.mp bounded with ⟨first, later⟩
  rcases List.exists_cons_of_ne_nil nonempty with ⟨digit, digits, rfl⟩
  have positiveGroup : horner 10 (digit :: digits) ≠ 0 := by
    rw [Ne, horner_eq_zero_iff (by norm_num)]
    intro zeros
    have starts : (digitsOf 10 num.toNat).head? = some digit := by
      rw [← flat]
      rfl
    exact head?_digitsOf_ne_zero starts (zeros digit List.mem_cons_self)
  have behind := length_flatten_blocks lengths
  have position : (digits ++ groups.flatten).length = digits.length + 4 * groups.length := by
    rw [List.length_append, behind]
  rw [List.length_cons] at short
  have gaps := gapsFrom_group (List.forall_mem_cons.mp first).2 (by omega) behind
    (by omega : 4 * groups.length + digits.length ≤ (digits ++ groups.flatten).length)
    (fun above place => gapsFrom_groups later lengths place)
  have closed : ¬ 4 * (groups.length + 2) ≤ (digits ++ groups.flatten).length := by
    rw [position]
    omega
  have quiet : ¬ 4 * (groups.length + 1) ≤ (digits ++ groups.flatten).length := by
    rw [position]
    omega
  simp only [closed, quiet, false_imp_iff, true_and, and_false, decide_false] at gaps
  rw [← noDoubleZero_false, ← values, List.map_cons, noDoubleZero_cons, ← flat]
  simp only [positiveGroup, Bool.false_eq_true, false_imp_iff, true_and, decide_false]
  exact gaps

/-- The zeros of a Chinese numeral are canonical exactly if no group of zeros stands in front of
a group that starts with a zero and is not zero. -/
theorem num2chinese_canonicalZeros_iff (num : UInt64) (positive : 0 < num)
    (script : ChineseScript) :
    (∃ text, num2chinese num script = some text ∧
        CanonicalZeros (digitsOf 10 num.toNat) text.toList) ↔
      (digitsOf 10000 num.toNat).IsChain fun upper lower =>
        ¬ (upper = 0 ∧ 0 < lower ∧ lower < 1000) := by
  have nonzero : num ≠ 0 := by
    rintro rfl
    exact absurd positive (by decide)
  rcases num2chinese_reads num script with ⟨text, made, _⟩
  have condition := (canonicalZeros_iff nonzero made).trans (digitGaps_num nonzero)
  constructor
  · rintro ⟨text', made', canonical⟩
    rw [made, Option.some_inj] at made'
    subst made'
    exact condition.mp canonical
  · intro single
    exact ⟨text, made, condition.mpr single⟩

theorem num2chinese_canonicalZeros_tenThousandOne :
    (∃ text, num2chinese 10001 .simplified = some text ∧
        CanonicalZeros (digitsOf 10 (10001 : UInt64).toNat) text.toList) ↔
      (digitsOf 10000 (10001 : UInt64).toNat).IsChain fun upper lower =>
        ¬ (upper = 0 ∧ 0 < lower ∧ lower < 1000) :=
  num2chinese_canonicalZeros_iff 10001 (by decide) .simplified

/-- One hundred million and one is written with two zero characters side by side. -/
theorem num2chinese_double_zero :
    num2chinese 100000001 .simplified = some "一亿零零一" ∧
      ¬ ∃ text, num2chinese 100000001 .simplified = some text ∧
        CanonicalZeros (digitsOf 10 (100000001 : UInt64).toNat) text.toList := by
  have made : num2chinese 100000001 .simplified = some "一亿零零一" := by
    decide +kernel
  refine ⟨made, ?_⟩
  rintro ⟨text, made', canonical⟩
  rw [made, Option.some_inj] at made'
  subst made'
  exact canonical.single ⟨['一', '亿'], ['一'], by decide⟩

end Condition

end Batchalign.Asr
