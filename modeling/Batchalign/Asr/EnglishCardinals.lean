import Mathlib
import Batchalign.Asr.Num2Text

/-!
# English cardinals

The greedy decomposition puts the words of a multiplier in front of every entry from a hundred
on. The English entries for a thousand and ten thousand already carry a count, so the words of a
number from two thousand on are no cardinal, or another one, but for the numbers from ten
thousand to below eleven thousand (`readCardinal_expandNumber_iff`).

The grammar that reads a cardinal is stated on its own, over the words of a text.
-/

namespace Batchalign.Asr

section Grammar

def unitNames : List String :=
  ["one", "two", "three", "four", "five", "six", "seven", "eight", "nine"]

def teenNames : List String :=
  ["ten", "eleven", "twelve", "thirteen", "fourteen", "fifteen", "sixteen", "seventeen",
    "eighteen", "nineteen"]

def tenNames : List String :=
  ["twenty", "thirty", "forty", "fifty", "sixty", "seventy", "eighty", "ninety"]

/-- The numbers from one to ninety-nine, in order. -/
def namesBelowHundred : List String :=
  unitNames ++ teenNames ++ tenNames.flatMap fun ten => ten :: unitNames.map (ten ++ "-" ++ ·)

/-- The position of a name, counted from one. -/
def valueOf (names : List String) (word : String) : Option ℕ := (names.idxOf? word).map (· + 1)

/-- An `and` in front of a single word joins it to what stands before. -/
def dropAnd : List String → List String
  | [first, word] => if first = "and" then [word] else [first, word]
  | words => words

/-- A number below a hundred, or hundreds with such a number behind them. -/
def readBelowThousand : List String → Option ℕ
  | [] => none
  | [word] => valueOf namesBelowHundred word
  | unit :: scale :: rest =>
      if scale = "hundred" then do
        let hundreds ← valueOf unitNames unit
        match dropAnd rest with
        | [] => some (hundreds * 100)
        | [word] => (valueOf namesBelowHundred word).map (hundreds * 100 + ·)
        | _ => none
      else none

def scaleNames : List (String × ℕ) :=
  [("quintillion", 10 ^ 18), ("quadrillion", 10 ^ 15), ("trillion", 10 ^ 12),
    ("billion", 10 ^ 9), ("million", 10 ^ 6), ("thousand", 10 ^ 3)]

/-- A count below a thousand in front of each scale, in falling order, and the rest behind. -/
def readScales : List (String × ℕ) → List String → Option ℕ
  | [], words => readBelowThousand words
  | (name, factor) :: scales, words =>
      if name ∈ words then do
        let count ← readBelowThousand (words.takeWhile (· ≠ name))
        let after := (words.dropWhile (· ≠ name)).tail
        if after = [] then some (count * factor)
        else do
          let rest ← readScales scales (dropAnd after)
          some (count * factor + rest)
      else readScales scales words

def readWords (words : List String) : Option ℕ :=
  if words = ["zero"] then some 0 else readScales scaleNames words

/-- The number of an English cardinal. -/
def readCardinal (text : String) : Option ℕ := readWords (splitAt ' ' text)

end Grammar

section Words

theorem splitAt_append (left right : String) :
    splitAt ' ' (left ++ " " ++ right) = splitAt ' ' left ++ splitAt ' ' right := by
  have chars : (left ++ " " ++ right).toList = left.toList ++ ' ' :: right.toList := by
    simp [String.toList_append]
  rw [splitAt, chars, List.splitOn_append_cons_self, List.map_append]
  rfl

theorem splitAt_joinWords {parts : List String} (nonempty : parts ≠ []) :
    splitAt ' ' (joinWords parts) = parts.flatMap (splitAt ' ') := by
  induction parts with
  | nil => exact absurd rfl nonempty
  | cons part parts ih =>
      rcases parts with _ | ⟨next, parts⟩
      · simp [joinWords]
      · rw [joinWords, String.intercalate_cons_cons, splitAt_append, List.flatMap_cons]
        congr 1
        exact ih (by simp)

/-- The word of an entry below a hundred. -/
def smallWord (n : ℕ) : String := (smallNumbers.lookup n).getD ""

def hundredWord (n : ℕ) : String := (hundredNumbers.lookup (100 * n)).getD ""

theorem smallWord_mem {n : ℕ} (positive : 0 < n) (small : n < 100) :
    (n, smallWord n) ∈ smallNumbers := by
  have listed : ∀ n < 100, 0 < n → (smallNumbers.lookup n).isSome := by decide
  rcases Option.isSome_iff_exists.mp (listed n small positive) with ⟨word, found⟩
  rcases List.lookup_eq_some_iff.mp found with ⟨before, after, entries, _⟩
  rw [smallWord, found, entries]
  simp

theorem hundredWord_mem {n : ℕ} (positive : 0 < n) (small : n < 10) :
    (100 * n, hundredWord n) ∈ hundredNumbers := by
  have listed : ∀ n < 10, 0 < n → (hundredNumbers.lookup (100 * n)).isSome := by decide
  rcases Option.isSome_iff_exists.mp (listed n small positive) with ⟨word, found⟩
  rcases List.lookup_eq_some_iff.mp found with ⟨before, after, entries, _⟩
  rw [hundredWord, found, entries]
  simp

theorem names_smallNumbers : smallNumbers.reverse.map Prod.snd = namesBelowHundred := by
  decide

/-- No two names are the same; as numbers their bytes are quickly compared. -/
theorem namesBelowHundred_nodup : namesBelowHundred.Nodup := by
  have codes : (smallNumbers.map fun entry => entry.2.toByteArray.data.toList.foldl
      (fun code byte => code * 256 + byte.toNat) 0).Nodup := by decide
  have words : (smallNumbers.map Prod.snd).Nodup := by
    apply List.Nodup.of_map fun word : String => word.toByteArray.data.toList.foldl
      (fun code byte => code * 256 + byte.toNat) 0
    rwa [List.map_map]
  rw [← names_smallNumbers, List.map_reverse]
  exact List.nodup_reverse.mpr words

theorem valueOf_smallWord {n : ℕ} (positive : 0 < n) (small : n < 100) :
    valueOf namesBelowHundred (smallWord n) = some n := by
  have numbers : smallNumbers.reverse.map Prod.fst = List.range' 1 99 := by decide
  rcases List.getElem?_of_mem (List.mem_reverse.mpr (smallWord_mem positive small)) with
    ⟨index, found⟩
  have number : (List.range' 1 99)[index]? = some n := by
    rw [← numbers, List.getElem?_map, found]
    rfl
  have name : namesBelowHundred[index]? = some (smallWord n) := by
    rw [← names_smallNumbers, List.getElem?_map, found]
    rfl
  rcases List.getElem?_eq_some_iff.mp name with ⟨inside, isName⟩
  have first : namesBelowHundred.idxOf? (smallWord n) = some index := by
    apply List.findIdx?_eq_some_iff_getElem.mpr
    refine ⟨inside, by simp [isName], ?_⟩
    intro other before
    have distinct : namesBelowHundred[other] ≠ namesBelowHundred[index] := by
      rw [Ne, namesBelowHundred_nodup.getElem_inj_iff]
      omega
    simpa [← isName] using distinct
  rcases List.getElem?_eq_some_iff.mp number with ⟨_, value⟩
  rw [List.getElem_range'] at value
  rw [valueOf, first, Option.map_some]
  congr 1
  omega

/-- The words from one to nine, and the hundreds made of them. -/
theorem unitWord_facts : ∀ n < 10, 0 < n → valueOf unitNames (smallWord n) = some n ∧
    hundredWord n = smallWord n ++ " " ++ "hundred" := by
  decide

theorem namesBelowHundred_no_space : ∀ name ∈ namesBelowHundred, ' ' ∉ name.toList := by
  have single : ∀ name ∈ unitNames ++ teenNames ++ tenNames, ' ' ∉ name.toList := by
    decide
  intro name member
  rcases List.mem_append.mp member with front | compound
  · exact single name (List.mem_append_left _ front)
  · rcases List.mem_flatMap.mp compound with ⟨ten, isTen, made⟩
    have noSpace := single ten (List.mem_append_right _ isTen)
    rcases List.mem_cons.mp made with rfl | hyphenated
    · exact noSpace
    · rcases List.mem_map.mp hyphenated with ⟨unit, isUnit, rfl⟩
      have unitSpace := single unit (by simp [isUnit])
      simp [String.toList_append, noSpace, unitSpace]

theorem splitAt_smallWord {n : ℕ} (positive : 0 < n) (small : n < 100) :
    splitAt ' ' (smallWord n) = [smallWord n] := by
  have isName : smallWord n ∈ namesBelowHundred := by
    rcases Option.map_eq_some_iff.mp (valueOf_smallWord positive small) with ⟨index, found, _⟩
    by_contra absent
    rw [List.idxOf?_eq_none_iff.mpr absent] at found
    cases found
  rw [splitAt, List.splitOn_eq_singleton (namesBelowHundred_no_space _ isName)]
  simp

theorem splitAt_hundredWord {n : ℕ} (positive : 0 < n) (small : n < 10) :
    splitAt ' ' (hundredWord n) = [smallWord n, "hundred"] := by
  have hundred : splitAt ' ' "hundred" = ["hundred"] := rfl
  rw [(unitWord_facts n small positive).2, splitAt_append, splitAt_smallWord positive (by omega),
    hundred]
  rfl

end Words

section Decomposition

variable {all rest : List (ℕ × String)} {n key : ℕ} {word : String}

theorem decomposeFrom_skip (larger : n < key) :
    decomposeFrom all n ((key, word) :: rest) = decomposeFrom all n rest := by
  rw [decomposeFrom, if_pos larger]

theorem decomposeFrom_exact (positive : 0 < n) :
    decomposeFrom all n ((n, word) :: rest) = some [word] := by
  rw [decomposeFrom, if_neg (lt_irrefl n), Nat.div_self positive, Nat.mod_self, Nat.sub_self]
  simp

/-- An entry from a hundred on that fits once. -/
theorem decomposeFrom_once (large : 100 ≤ key) (fits : key ≤ n) (once : n < 2 * key) :
    decomposeFrom all n ((key, word) :: rest) =
      if n - key = 0 then some [word] else (decomposeFrom all (n - key) rest).map (word :: ·) := by
  have count : n / key = 1 := Nat.div_eq_of_lt_le (by omega) (by omega)
  have remainder : n % key = n - key := by
    rw [Nat.mod_eq_sub_mod fits, Nat.mod_eq_of_lt (by omega)]
  rw [decomposeFrom, if_neg (by omega), if_pos large, count, remainder]
  simp

/-- An entry that fits more than once takes the words of the multiplier. -/
theorem decomposeFrom_often (large : 100 ≤ key) (often : 2 * key ≤ n) {parts : List String}
    (multiplier : decomposeFrom all (n / key) all = some parts) :
    decomposeFrom all n ((key, word) :: rest) =
      if n % key = 0 then some [joinWords parts ++ " " ++ word]
      else (decomposeFrom all (n % key) rest).map ((joinWords parts ++ " " ++ word) :: ·) := by
  have count : 1 < n / key := (Nat.le_div_iff_mul_le (by omega)).mpr often
  rw [decomposeFrom, if_neg (by omega), if_pos large, if_pos count, multiplier]
  rfl

/-- An entry of the table is all of its number. -/
theorem decomposeFrom_member {entries : List (ℕ × String)}
    (sorted : entries.Pairwise fun left right => right.1 < left.1) (positive : 0 < n)
    (member : (n, word) ∈ entries) : decomposeFrom all n entries = some [word] := by
  induction entries with
  | nil => cases member
  | cons entry entries ih =>
      rcases List.pairwise_cons.mp sorted with ⟨above, sorted⟩
      rcases List.mem_cons.mp member with rfl | later
      · exact decomposeFrom_exact positive
      · exact (decomposeFrom_skip (above _ later)).trans (ih sorted later)

/-- The largest entry that fits comes first, and the smaller ones behind it. -/
theorem decomposeFrom_largest {entries : List (ℕ × String)}
    (sorted : entries.Pairwise fun left right => right.1 < left.1)
    (member : (key, word) ∈ entries) (largest : ∀ entry ∈ entries, entry.1 ≤ n → entry.1 ≤ key) :
    decomposeFrom all n entries =
      decomposeFrom all n ((key, word) :: entries.filter (·.1 < key)) := by
  induction entries with
  | nil => cases member
  | cons entry entries ih =>
      rcases List.pairwise_cons.mp sorted with ⟨above, sorted⟩
      rcases List.forall_mem_cons.mp largest with ⟨first, rest⟩
      rcases List.mem_cons.mp member with rfl | later
      · have all : ∀ entry ∈ entries, decide (entry.1 < key) = true := by
          intro entry inside
          simpa using above entry inside
        rw [List.filter_cons_of_neg (by simp), List.filter_eq_self.mpr all]
      · have larger := above _ later
        dsimp only at larger
        rw [decomposeFrom_skip (by omega), ih sorted later rest,
          List.filter_cons_of_neg (by simp; omega)]

/-- The entries below a thousand. -/
def hundredEntries : List (ℕ × String) := hundredNumbers ++ smallNumbers

def thousandEntries : List (ℕ × String) := (1000, "one thousand") :: hundredEntries

def engEntries : List (ℕ × String) := (10000, "ten thousand") :: thousandEntries

set_option maxRecDepth 2000 in
theorem engEntries_sorted : engEntries.Pairwise fun left right => right.1 < left.1 := by
  have chain : engEntries.IsChain fun left right => right.1 < left.1 := by decide
  exact chain.pairwise

theorem hundredEntries_sorted :
    hundredEntries.Pairwise fun left right => right.1 < left.1 :=
  (List.pairwise_cons.mp (List.pairwise_cons.mp engEntries_sorted).2).2

theorem smallWord_entry (positive : 0 < n) (small : n < 100) :
    (n, smallWord n) ∈ hundredEntries :=
  List.mem_append_right _ (smallWord_mem positive small)

/-- The parts of a number below a thousand. -/
def partsBelowThousand (n : ℕ) : List String :=
  (if 100 ≤ n then [hundredWord (n / 100)] else []) ++
    (if n % 100 = 0 then [] else [smallWord (n % 100)])

theorem decomposeFrom_hundreds (positive : 0 < n) (below : n < 1000) :
    decomposeFrom all n hundredEntries = some (partsBelowThousand n) := by
  rcases Nat.lt_or_ge n 100 with small | large
  · have same : n % 100 = n := Nat.mod_eq_of_lt small
    rw [decomposeFrom_member hundredEntries_sorted positive (smallWord_entry positive small),
      partsBelowThousand, if_neg (by omega), same, if_neg (by omega)]
    rfl
  · have member : (100 * (n / 100), hundredWord (n / 100)) ∈ hundredEntries :=
      List.mem_append_left _ (hundredWord_mem (by omega) (by omega))
    have places : ∀ entry ∈ hundredEntries, entry.1 < 100 ∨ entry.1 % 100 = 0 := by decide
    have largest : ∀ entry ∈ hundredEntries, entry.1 ≤ n → entry.1 ≤ 100 * (n / 100) := by
      intro entry inside fits
      rcases places entry inside with less | whole <;> omega
    have remainder : n - 100 * (n / 100) = n % 100 := by omega
    rw [decomposeFrom_largest hundredEntries_sorted member largest,
      decomposeFrom_once (by omega) (by omega) (by omega), remainder, partsBelowThousand,
      if_pos large]
    by_cases zero : n % 100 = 0
    · simp [zero]
    · have small : n % 100 < 100 := Nat.mod_lt _ (by norm_num)
      have rest : (n % 100, smallWord (n % 100)) ∈
          hundredEntries.filter (·.1 < 100 * (n / 100)) := by
        apply List.mem_filter.mpr
        refine ⟨smallWord_entry (by omega) small, ?_⟩
        simp
        omega
      rw [if_neg zero, if_neg zero,
        decomposeFrom_member (hundredEntries_sorted.filter _) (by omega) rest]
      rfl

/-- The words of a number as the table gives them: a multiplier stands in front of an entry with
a count of its own. -/
def cardinalTokens (n : ℕ) : List String :=
  if n < 1000 then (partsBelowThousand n).flatMap (splitAt ' ')
  else if n < 10000 then
    (if 2000 ≤ n then [smallWord (n / 1000)] else []) ++ ["one", "thousand"] ++
      cardinalTokens (n % 1000)
  else
    (if 20000 ≤ n then cardinalTokens (n / 10000) else []) ++ ["ten", "thousand"] ++
      cardinalTokens (n % 10000)
termination_by n
decreasing_by all_goals omega

theorem cardinalTokens_zero : cardinalTokens 0 = [] := by
  rw [cardinalTokens]
  rfl

/-- The parts of a number, by their words. -/
def Decomposed (n : ℕ) (entries : List (ℕ × String)) : Prop :=
  ∃ parts, decomposeFrom engEntries n entries = some parts ∧ parts ≠ [] ∧
    parts.flatMap (splitAt ' ') = cardinalTokens n

theorem decomposed_hundreds (positive : 0 < n) (below : n < 1000) :
    Decomposed n hundredEntries := by
  refine ⟨partsBelowThousand n, decomposeFrom_hundreds positive below, ?_, ?_⟩
  · intro empty
    rw [partsBelowThousand, List.append_eq_nil_iff] at empty
    split at empty
    · simp at empty
    · split at empty
      · omega
      · simp at empty
  · rw [cardinalTokens, if_pos below]

/-- What stands behind an entry that was written. -/
theorem decomposed_behind {text : String} {entries : List (ℕ × String)}
    {tokens : List String} (words : splitAt ' ' text = tokens)
    (behind : 0 < n → Decomposed n entries) :
    ∃ parts, (if n = 0 then some [text]
        else (decomposeFrom engEntries n entries).map (text :: ·)) = some parts ∧ parts ≠ [] ∧
      parts.flatMap (splitAt ' ') = tokens ++ cardinalTokens n := by
  by_cases zero : n = 0
  · subst zero
    exact ⟨[text], rfl, by simp, by simp [words, cardinalTokens_zero]⟩
  · rcases behind (by omega) with ⟨parts, made, _, isTokens⟩
    exact ⟨text :: parts, by rw [if_neg zero, made]; rfl, by simp, by simp [words, isTokens]⟩

theorem decomposed_thousands (positive : 0 < n) (below : n < 10000) :
    Decomposed n thousandEntries := by
  have thousand : splitAt ' ' "one thousand" = ["one", "thousand"] := rfl
  rcases Nat.lt_or_ge n 1000 with smaller | reached
  · rcases decomposed_hundreds positive smaller with ⟨parts, made, rest⟩
    exact ⟨parts, (decomposeFrom_skip smaller).trans made, rest⟩
  · have behind : 0 < n % 1000 → Decomposed (n % 1000) hundredEntries :=
      fun positive => decomposed_hundreds positive (by omega)
    unfold Decomposed thousandEntries
    rw [cardinalTokens, if_neg (by omega), if_pos below]
    rcases Nat.lt_or_ge n 2000 with once | often
    · have remainder : n - 1000 = n % 1000 := by omega
      have single : ¬ 2000 ≤ n := by omega
      rw [decomposeFrom_once (by omega) reached (by omega), remainder, if_neg single,
        List.nil_append]
      exact decomposed_behind thousand behind
    · have multiplier : decomposeFrom engEntries (n / 1000) engEntries =
          some [smallWord (n / 1000)] := by
        have small : n / 1000 < 100 := by omega
        change decomposeFrom engEntries (n / 1000) ((10000, "ten thousand") ::
          (1000, "one thousand") :: hundredEntries) = _
        rw [decomposeFrom_skip (by omega), decomposeFrom_skip (by omega),
            decomposeFrom_hundreds (by omega) (by omega), partsBelowThousand, if_neg (by omega),
          Nat.mod_eq_of_lt small, if_neg (by omega)]
        rfl
      rw [decomposeFrom_often (by omega) often multiplier, if_pos often]
      apply decomposed_behind _ behind
      rw [splitAt_append, thousand, splitAt_joinWords (by simp), List.flatMap_singleton,
        splitAt_smallWord (by omega) (by omega)]

/-- The English table takes every number apart. -/
theorem decomposed_engEntries (positive : 0 < n) : Decomposed n engEntries := by
  have tenThousand : splitAt ' ' "ten thousand" = ["ten", "thousand"] := rfl
  induction n using Nat.strong_induction_on with
  | _ n ih =>
      rcases Nat.lt_or_ge n 10000 with smaller | reached
      · rcases decomposed_thousands positive smaller with ⟨parts, made, rest⟩
        exact ⟨parts, (decomposeFrom_skip smaller).trans made, rest⟩
      · have behind : 0 < n % 10000 → Decomposed (n % 10000) thousandEntries :=
          fun positive => decomposed_thousands positive (by omega)
        change ∃ parts, decomposeFrom engEntries n ((10000, "ten thousand") :: thousandEntries) =
          some parts ∧ _
        rw [cardinalTokens, if_neg (by omega), if_neg (by omega)]
        rcases Nat.lt_or_ge n 20000 with once | often
        · have remainder : n - 10000 = n % 10000 := by omega
          have single : ¬ 20000 ≤ n := by omega
          rw [decomposeFrom_once (by omega) reached once, remainder, if_neg single,
            List.nil_append]
          exact decomposed_behind tenThousand behind
        · rcases ih (n / 10000) (by omega) (by omega) with ⟨parts, made, nonempty, tokens⟩
          rw [decomposeFrom_often (by omega) often made, if_pos often]
          apply decomposed_behind _ behind
          rw [splitAt_append, splitAt_joinWords nonempty, tokens, tenThousand]

end Decomposition

section Digits

/-- The digits of a number are its text. -/
theorem digits_toString (n : ℕ) : (toString n).toList ≠ [] ∧
    ∀ c ∈ (toString n).toList, c.isDigit := by
  have chars : (toString n).toList = Nat.toDigits 10 n := Nat.toList_repr
  rw [chars]
  exact ⟨Nat.toDigits_ne_nil, fun c member =>
    Nat.isDigit_of_mem_toDigits (by norm_num) le_rfl member⟩

theorem parseU64_toString {n : ℕ} (bounded : n < 2 ^ 64) : parseU64 (toString n) = some n := by
  have chars : (toString n).toList = Nat.toDigits 10 n := Nat.toList_repr
  rcases digits_toString n with ⟨nonempty, digits⟩
  have value : Positional.horner 10 ((toString n).toList.map fun c => c.toNat - '0'.toNat) = n := by
    rw [chars, Positional.horner, List.foldl_map]
    have read : Nat.ofDigitChars 10 (Nat.toDigits 10 n) 0 = n := Nat.ofDigitChars_ten_toDigits
    rw [Nat.ofDigitChars_eq_foldl] at read
    simpa [Nat.mul_comm] using read
  unfold parseU64
  split
  · rename_i rest plus
    have isDigit := digits '+' (by rw [plus]; exact List.mem_cons_self)
    exact absurd isDigit (by decide)
  · dsimp only
    rw [value, if_pos ⟨nonempty, List.all_eq_true.mpr digits⟩, if_pos bounded]

/-- The numbers of the English table, but for the zero, in falling order. -/
theorem tableEntries_engTable : tableEntries engTable = engEntries := by
  have bounded : ∀ entry ∈ engNumbers, entry.1 < 2 ^ 64 := by decide
  have parsed : (engTable.filterMap fun entry => (parseU64 entry.1).map (·, entry.2)) =
      engNumbers := by
    rw [engTable, List.filterMap_map]
    calc engNumbers.filterMap _ = engNumbers.filterMap some := by
          apply List.filterMap_congr
          intro entry member
          rw [Function.comp_apply, parseU64_toString (bounded entry member)]
          rfl
      _ = engNumbers := List.filterMap_some
  have positive : engNumbers.filter (0 < ·.1) = engEntries := rfl
  rw [tableEntries, parsed, positive]
  apply List.Pairwise.insertionSort_eq
  exact engEntries_sorted.imp fun less => less.le

theorem digit_not_whitespace {c : Char} (digit : c.isDigit) : isWhitespace c = false := by
  simp only [Char.isDigit, ge_iff_le, Bool.and_eq_true, decide_eq_true_eq,
    UInt32.le_iff_toNat_le] at digit
  change 48 ≤ c.toNat ∧ c.toNat ≤ 57 at digit
  simp [isWhitespace]
  omega

theorem digit_ne {c other : Char} (digit : c.isDigit) (noDigit : other.isDigit = false) :
    c ≠ other := by
  rintro rfl
  rw [digit] at noDigit
  cases noDigit

theorem leadingDigits_all {chars : List Char} (nonempty : chars ≠ [])
    (digits : ∀ c ∈ chars, c.isDigit) : leadingDigits chars = some (chars, []) := by
  have taken : chars.takeWhile Char.isDigit = chars := List.takeWhile_eq_self_iff.mpr digits
  have dropped : chars.dropWhile Char.isDigit = [] := List.dropWhile_eq_nil_iff.mpr digits
  rw [leadingDigits, taken, dropped]
  simp [nonempty]

variable [NumberLanguages]

/-- Digits alone are a cardinal in English. -/
theorem recognize_digits {chars : List Char} (nonempty : chars ≠ [])
    (digits : ∀ c ∈ chars, c.isDigit) :
    recognize chars "eng" = some (.cardinal, .ofValue chars) := by
  have all := leadingDigits_all nonempty digits
  have noDash : '-' ∉ chars := by
    intro dash
    exact absurd (digits '-' dash) (by decide)
  have suffix : ∀ suffixes : List String, suffixes.contains "" = false →
      digitsWithSuffix suffixes chars = none := by
    intro suffixes absent
    rw [digitsWithSuffix, all]
    simp only [Option.bind_eq_bind, Option.bind_some]
    rw [if_neg]
    simpa using absent
  have noGroups : digitGroupsRule chars = none := by
    rw [digitGroupsRule, List.splitOn_eq_singleton noDash]
    simp
  have noCompound : hyphenCompoundRule chars = none := by
    rw [hyphenCompoundRule, all]
    rfl
  have noPrefix : currencyPrefix chars = none := by
    rcases List.exists_cons_of_ne_nil nonempty with ⟨first, rest, rfl⟩
    have isDigit := digits first List.mem_cons_self
    have noSymbol : ['$', '€', '£', '¥', '₹', '₩', '₽'].contains first = false := by
      rw [List.contains_eq_mem, decide_eq_false_iff_not]
      intro symbol
      have noDigit : (['$', '€', '£', '¥', '₹', '₩', '₽'].all fun c => ! c.isDigit) = true := rfl
      have first_ := List.all_eq_true.mp noDigit first symbol
      rw [isDigit] at first_
      cases first_
    rw [currencyPrefix, noSymbol]
    cases leadingDigits (rest.dropWhile isWhitespace) <;> rfl
  have noSuffix : currencySuffix chars = none := by
    have noSpace : chars.dropWhile isWhitespace = chars := by
      rcases List.exists_cons_of_ne_nil nonempty with ⟨first, rest, rfl⟩
      apply List.dropWhile_cons_of_neg
      simp [digit_not_whitespace (digits first List.mem_cons_self)]
    rw [currencySuffix, noSpace, all]
    rfl
  have isCardinal : cardinalRule chars = some (.ofValue chars) := by
    rw [cardinalRule, digitsWithSuffix, all]
    rfl
  have noOrdinal := suffix ["st", "nd", "rd", "th"] (by decide)
  have noDecade := suffix ["s"] (by decide)
  simp [recognize, languageRules, commonRules, ordinalEng, decadeEng, noOrdinal, noDecade, noGroups,
    noCompound, noPrefix, noSuffix, isCardinal]

omit [NumberLanguages] in
theorem normalizeDashes_digits {text : String} (digits : ∀ c ∈ text.toList, c.isDigit) :
    normalizeDashes text = text := by
  apply String.toList_inj.mp
  rw [normalizeDashes, String.toList_map]
  have kept : ∀ c ∈ text.toList, (if c = '—' ∨ c = '–' then '-' else c) = id c := by
    intro c member
    apply if_neg
    rintro (long | short)
    · exact digit_ne (digits c member) rfl long
    · exact digit_ne (digits c member) rfl short
  rw [List.map_congr_left kept, List.map_id]

theorem expandNumber_digits (n : ℕ) :
    expandNumber (toString n) "eng" =
      (tableCardinal (toString n) "eng").getD (toString n) := by
  rcases digits_toString n with ⟨nonempty, digits⟩
  have lower : toAsciiLowercase "eng" = "eng" := by
    apply String.toList_inj.mp
    rw [toAsciiLowercase, String.toList_map]
    rfl
  have english : rendererOf "eng" = .english := rfl
  unfold expandNumber expand
  dsimp only
  rw [lower, normalizeDashes_digits digits, recognize_digits nonempty digits]
  have value : String.ofList (NumberGroups.ofValue (toString n).toList).value = toString n :=
    String.ofList_toList
  simp only [renderNumber, english, renderCommon, value, cardinal]
  cases tableCardinal (toString n) "eng" <;> rfl

end Digits

section Cardinals

variable [NumberLanguages] {n : ℕ}

/-- The text of a number, from the table or from the decomposition, by its words. -/
theorem tableCardinal_eng (positive : 0 < n) (bounded : n < 2 ^ 64) :
    ∃ text, tableCardinal (toString n) "eng" = some text ∧
      splitAt ' ' text = cardinalTokens n := by
  rcases decomposed_engEntries positive with ⟨parts, made, nonempty, tokens⟩
  have parsed := parseU64_toString bounded
  have decomposed : decomposeWithTable n engTable = some (joinWords parts) := by
    rw [decomposeWithTable, if_neg (by omega), tableEntries_engTable, made, Option.bind_some,
      if_neg (by simpa using nonempty)]
  have english : num2lang "eng" = some engTable := rfl
  rw [tableCardinal, english, Option.bind_some, parsed, Option.bind_some, decomposed]
  cases found : engTable.lookup (toString n) with
  | none => exact ⟨joinWords parts, rfl, by rw [splitAt_joinWords nonempty, tokens]⟩
  | some word =>
      refine ⟨word, rfl, ?_⟩
      have member : (n, word) ∈ engEntries := by
        rcases List.lookup_eq_some_iff.mp found with ⟨before, after, table, _⟩
        rw [← tableEntries_engTable]
        refine (List.mem_insertionSort _).mpr (List.mem_filter.mpr ⟨?_, by simpa using positive⟩)
        refine List.mem_filterMap.mpr ⟨(toString n, word), by simp [table], ?_⟩
        rw [parsed]
        rfl
      have exact_ : decomposeFrom engEntries n engEntries = some [word] :=
        decomposeFrom_member engEntries_sorted positive member
      rw [exact_, Option.some_inj] at made
      rw [← tokens, ← made, List.flatMap_singleton]

end Cardinals

section Reading

variable {n : ℕ}

/-- The words of the table that name a number, and the two scales that it uses. -/
def vocabulary : List String := ["hundred", "thousand"] ++ smallNumbers.map Prod.snd

theorem smallWord_vocabulary (positive : 0 < n) (small : n < 100) : smallWord n ∈ vocabulary :=
  List.mem_append_right _ (List.mem_map_of_mem (smallWord_mem positive small))

/-- What is no name is no word of a number below a hundred. -/
theorem smallWord_ne (positive : 0 < n) (small : n < 100) {word : String}
    (noName : valueOf namesBelowHundred word = none) : smallWord n ≠ word := by
  intro same
  have value := valueOf_smallWord positive small
  rw [same, noName] at value
  cases value

theorem noNames : ∀ word ∈ ["thousand", "and", "zero", "quintillion", "quadrillion", "trillion",
    "billion", "million"], valueOf namesBelowHundred word = none := by
  decide

theorem thousand_noName : valueOf namesBelowHundred "thousand" = none := noNames _ (by simp)

/-- A word that is no name and none of the two scales is not in the vocabulary. -/
theorem vocabulary_not_mem {word : String} (noName : valueOf namesBelowHundred word = none)
    (other : word ≠ "hundred" ∧ word ≠ "thousand") : word ∉ vocabulary := by
  intro member
  rcases List.mem_append.mp member with scale | small
  · simp [other.1, other.2] at scale
  · rw [← List.mem_reverse, ← List.map_reverse, names_smallNumbers] at small
    have absent := Option.map_eq_none_iff.mp noName
    exact List.idxOf?_eq_none_iff.mp absent small

theorem tokens_below (below : n < 1000) :
    cardinalTokens n = (if 100 ≤ n then [smallWord (n / 100), "hundred"] else []) ++
      (if n % 100 = 0 then [] else [smallWord (n % 100)]) := by
  rw [cardinalTokens, if_pos below, partsBelowThousand, List.flatMap_append]
  congr 1
  · split
    · rw [List.flatMap_singleton, splitAt_hundredWord (by omega) (by omega)]
    · rfl
  · split
    · rfl
    · rw [List.flatMap_singleton, splitAt_smallWord (by omega) (Nat.mod_lt _ (by norm_num))]

theorem cardinalTokens_vocabulary (n : ℕ) : ∀ token ∈ cardinalTokens n, token ∈ vocabulary := by
  have one : "one" ∈ vocabulary := smallWord_vocabulary (by norm_num : 0 < 1) (by norm_num)
  have ten : "ten" ∈ vocabulary := smallWord_vocabulary (by norm_num : 0 < 10) (by norm_num)
  have thousand : "thousand" ∈ vocabulary := List.mem_append_left _ (by simp)
  have hundred : "hundred" ∈ vocabulary := List.mem_append_left _ (by simp)
  induction n using cardinalTokens.induct with
  | case1 n below =>
      intro token member
      rw [tokens_below below] at member
      rcases List.mem_append.mp member with hundreds | small
      · split at hundreds
        · rcases List.mem_cons.mp hundreds with rfl | isHundred
          · exact smallWord_vocabulary (by omega) (by omega)
          · rwa [List.mem_singleton.mp isHundred]
        · cases hundreds
      · split at small
        · cases small
        · rw [List.mem_singleton.mp small]
          exact smallWord_vocabulary (by omega) (Nat.mod_lt _ (by norm_num))
  | case2 n large below ih =>
      intro token member
      rw [cardinalTokens, if_neg large, if_pos below] at member
      rcases List.mem_append.mp member with front | rest
      · rcases List.mem_append.mp front with multiplier | entry
        · split at multiplier
          · rw [List.mem_singleton.mp multiplier]
            exact smallWord_vocabulary (by omega) (by omega)
          · cases multiplier
        · simp only [List.mem_cons, List.not_mem_nil, or_false] at entry
          rcases entry with rfl | rfl
          · exact one
          · exact thousand
      · exact ih token rest
  | case3 n small large ih1 ih2 =>
      intro token member
      rw [cardinalTokens, if_neg small, if_neg large] at member
      rcases List.mem_append.mp member with front | rest
      · rcases List.mem_append.mp front with multiplier | entry
        · split at multiplier
          · rename_i often
            exact ih1 often token multiplier
          · cases multiplier
        · simp only [List.mem_cons, List.not_mem_nil, or_false] at entry
          rcases entry with rfl | rfl
          · exact ten
          · exact thousand
      · exact ih2 token rest

theorem thousand_not_mem (below : n < 1000) : "thousand" ∉ cardinalTokens n := by
  intro member
  rw [tokens_below below] at member
  rcases List.mem_append.mp member with hundreds | small
  · split at hundreds
    · rcases List.mem_cons.mp hundreds with same | same
      · exact smallWord_ne (by omega) (by omega) thousand_noName same.symm
      · exact absurd (List.mem_singleton.mp same) (by decide)
    · cases hundreds
  · split at small
    · cases small
    · exact smallWord_ne (by omega) (Nat.mod_lt _ (by norm_num)) thousand_noName
        (List.mem_singleton.mp small).symm

theorem readBelowThousand_tokens (positive : 0 < n) (below : n < 1000) :
    readBelowThousand (cardinalTokens n) = some n := by
  rw [tokens_below below]
  have small : n % 100 ≠ 0 → valueOf namesBelowHundred (smallWord (n % 100)) = some (n % 100) :=
    fun nonzero => valueOf_smallWord (by omega) (Nat.mod_lt _ (by norm_num))
  have hundreds : 100 ≤ n → valueOf unitNames (smallWord (n / 100)) = some (n / 100) :=
    fun large => (unitWord_facts _ (by omega) (by omega)).1
  by_cases large : 100 ≤ n <;> by_cases zero : n % 100 = 0
  · simp only [large, zero, if_true, List.append_nil]
    rw [readBelowThousand, if_pos rfl, hundreds large]
    simp only [dropAnd, Option.bind_eq_bind, Option.bind_some]
    congr 1
    omega
  · simp only [large, zero, if_true, if_false, List.cons_append, List.nil_append]
    rw [readBelowThousand, if_pos rfl, hundreds large]
    simp only [dropAnd, Option.bind_eq_bind, Option.bind_some, small zero, Option.map_some]
    congr 1
    omega
  · omega
  · simp only [large, zero, if_false, List.nil_append]
    rw [readBelowThousand, small zero]
    congr 1
    omega

theorem valueOf_bound {names : List String} {word : String} {value : ℕ}
    (found : valueOf names word = some value) : value ≤ names.length := by
  rcases Option.map_eq_some_iff.mp found with ⟨index, isIndex, rfl⟩
  exact List.findIdx?_eq_some_iff_getElem.mp isIndex |>.1

theorem unitValue_le {word : String} {value : ℕ} (found : valueOf unitNames word = some value) :
    value ≤ 9 :=
  valueOf_bound found

theorem nameValue_le {word : String} {value : ℕ}
    (found : valueOf namesBelowHundred word = some value) : value ≤ 99 :=
  (valueOf_bound found).trans (by decide)

theorem readBelowThousand_lt {words : List String} {value : ℕ}
    (read : readBelowThousand words = some value) : value < 1000 := by
  rcases words with _ | ⟨unit, _ | ⟨scale, rest⟩⟩
  · cases read
  · have bound := nameValue_le read
    omega
  · rw [readBelowThousand] at read
    split at read
    · rcases Option.bind_eq_some_iff.mp read with ⟨hundreds, isHundreds, read⟩
      have bound := unitValue_le isHundreds
      split at read
      · cases read
        omega
      · rcases Option.map_eq_some_iff.mp read with ⟨below, isBelow, rfl⟩
        have bound' := nameValue_le isBelow
        omega
      · cases read
    · cases read

theorem mem_dropAnd {words : List String} {word : String} (other : word ≠ "and")
    (member : word ∈ words) : word ∈ dropAnd words := by
  unfold dropAnd
  split
  · split
    · rename_i isAnd
      rw [isAnd] at member
      simpa [other] using member
    · exact member
  · exact member

/-- A scale inside of a count is no cardinal. -/
theorem readBelowThousand_thousand {words : List String} (member : "thousand" ∈ words) :
    readBelowThousand words = none := by
  have noUnit : valueOf unitNames "thousand" = none := by decide
  have noAnd : "thousand" ≠ "and" := by decide
  have noHundred : "thousand" ≠ "hundred" := by decide
  rcases words with _ | ⟨unit, _ | ⟨scale, rest⟩⟩
  · rfl
  · rw [← List.mem_singleton.mp member]
    exact thousand_noName
  · rw [readBelowThousand]
    split
    · rename_i isHundred
      rcases List.mem_cons.mp member with same | member
      · rw [← same, noUnit]
        rfl
      rcases List.mem_cons.mp member with same | behind
      · exact absurd (same.trans isHundred) noHundred
      · have kept := mem_dropAnd noAnd behind
        cases valueOf unitNames unit with
        | none => rfl
        | some hundreds =>
            simp only [Option.bind_eq_bind, Option.bind_some]
            split
            · rename_i empty
              rw [empty] at kept
              cases kept
            · rename_i word single
              rw [single] at kept
              rw [← List.mem_singleton.mp kept, thousand_noName]
              rfl
            · rfl
    · rfl

/-- Among the scales only the thousand is in the vocabulary. -/
theorem readWords_vocabulary {words : List String} (inside : ∀ word ∈ words, word ∈ vocabulary) :
    readWords words = readScales [("thousand", 10 ^ 3)] words := by
  have outside : ∀ word ∈ ["zero", "quintillion", "quadrillion", "trillion", "billion", "million"],
      word ∉ words := by
    have others : ∀ word ∈ ["zero", "quintillion", "quadrillion", "trillion", "billion",
        "million"], word ≠ "hundred" ∧ word ≠ "thousand" := by decide
    intro word listed isWord
    have noName := noNames word (by simp at listed ⊢; tauto)
    exact vocabulary_not_mem noName (others word listed) (inside word isWord)
  simp only [List.forall_mem_cons] at outside
  rcases outside with ⟨noZero, absent⟩
  have zero : words ≠ ["zero"] := by
    rintro rfl
    exact noZero List.mem_cons_self
  rw [readWords, if_neg zero, scaleNames, readScales, if_neg absent.1, readScales,
    if_neg absent.2.1, readScales, if_neg absent.2.2.1, readScales, if_neg absent.2.2.2.1,
    readScales, if_neg absent.2.2.2.2.1]

/-- The words around the first thousand. -/
theorem readScales_thousand {before after : List String} (first : "thousand" ∉ before) :
    readScales [("thousand", 10 ^ 3)] (before ++ "thousand" :: after) =
      (readBelowThousand before).bind fun count =>
        if after = [] then some (count * 10 ^ 3)
        else (readBelowThousand (dropAnd after)).bind fun rest => some (count * 10 ^ 3 + rest) := by
  have others : ∀ word ∈ before, decide (word ≠ "thousand") = true := by
    intro word member
    apply decide_eq_true
    rintro rfl
    exact first member
  have taken : (before ++ "thousand" :: after).takeWhile (· ≠ "thousand") = before := by
    rw [List.takeWhile_append_of_pos others, List.takeWhile_cons_of_neg (by simp), List.append_nil]
  have dropped : (before ++ "thousand" :: after).dropWhile (· ≠ "thousand") =
      "thousand" :: after := by
    rw [List.dropWhile_append_of_pos others, List.dropWhile_cons_of_neg (by simp)]
  rw [readScales, if_pos (by simp), taken, dropped]
  rfl

theorem readScales_lt {words : List String} {value : ℕ}
    (read : readScales [("thousand", 10 ^ 3)] words = some value) : value < 10 ^ 6 := by
  rw [readScales] at read
  split at read
  · rcases Option.bind_eq_some_iff.mp read with ⟨count, isCount, read⟩
    have bound := readBelowThousand_lt isCount
    dsimp only at read
    split at read
    · cases read
      omega
    · rcases Option.bind_eq_some_iff.mp read with ⟨rest, isRest, read⟩
      have bound' := readBelowThousand_lt isRest
      cases read
      omega
  · have bound := readBelowThousand_lt read
    omega

theorem dropAnd_tokens (n : ℕ) : dropAnd (cardinalTokens n) = cardinalTokens n := by
  have noAnd : "and" ∉ cardinalTokens n := by
    intro member
    exact vocabulary_not_mem (noNames "and" (by simp)) (by decide)
      (cardinalTokens_vocabulary n "and" member)
  unfold dropAnd
  split
  · rename_i first word tokens
    rw [tokens] at noAnd
    rw [if_neg (fun isAnd => noAnd (by simp [isAnd])), tokens]
  · rfl

theorem cardinalTokens_ne_nil (positive : 0 < n) : cardinalTokens n ≠ [] := by
  rw [cardinalTokens]
  split
  · rename_i below
    have tokens := tokens_below below
    rw [cardinalTokens, if_pos below] at tokens
    rw [tokens]
    by_cases large : 100 ≤ n
    · simp [large]
    · have nonzero : n % 100 ≠ 0 := by omega
      simp [nonzero]
  · split <;> simp

theorem thousand_mem (large : 1000 ≤ n) : "thousand" ∈ cardinalTokens n := by
  rw [cardinalTokens, if_neg (by omega)]
  split <;> simp

/-- What stands behind a count of thousands is read if it is below a thousand. -/
theorem readScales_behind {count : ℕ} {before : List String} (first : "thousand" ∉ before)
    (read : readBelowThousand before = some count) :
    readScales [("thousand", 10 ^ 3)] (before ++ "thousand" :: cardinalTokens n) =
      if n < 1000 then some (count * 10 ^ 3 + n) else none := by
  rw [readScales_thousand first, read, Option.bind_some, dropAnd_tokens]
  rcases Nat.eq_zero_or_pos n with rfl | positive
  · rw [if_pos cardinalTokens_zero]
    simp
  · rw [if_neg (cardinalTokens_ne_nil positive)]
    split
    · rename_i below
      rw [readBelowThousand_tokens positive below, Option.bind_some]
    · rename_i large
      rw [readBelowThousand_thousand (thousand_mem (by omega)), Option.bind_none]

/-- A count that is no cardinal makes the whole none. -/
theorem readScales_broken {before after : List String} (first : "thousand" ∉ before)
    (broken : readBelowThousand before = none) :
    readScales [("thousand", 10 ^ 3)] (before ++ "thousand" :: after) = none := by
  rw [readScales_thousand first, broken, Option.bind_none]

theorem readWords_cardinalTokens (positive : 0 < n) :
    readWords (cardinalTokens n) = some n ↔ n < 2000 ∨ (10000 ≤ n ∧ n < 11000) := by
  have one : readBelowThousand ["one"] = some 1 := rfl
  have ten : readBelowThousand ["ten"] = some 10 := rfl
  rw [readWords_vocabulary (cardinalTokens_vocabulary n)]
  rcases Nat.lt_or_ge n 1000 with below | thousand
  · rw [readScales, if_neg (thousand_not_mem below)]
    change readBelowThousand _ = _ ↔ _
    rw [readBelowThousand_tokens positive below]
    simp only [true_iff]
    omega
  rcases Nat.lt_or_ge n 10000 with below | tenThousand
  · have tokens : cardinalTokens n =
        ((if 2000 ≤ n then [smallWord (n / 1000)] else []) ++ ["one"]) ++
        "thousand" :: cardinalTokens (n % 1000) := by
      rw [cardinalTokens, if_neg (by omega), if_pos below]
      simp
    rw [tokens]
    rcases Nat.lt_or_ge n 2000 with once | often
    · have single : ¬ 2000 ≤ n := by omega
      have rest : n % 1000 < 1000 := Nat.mod_lt _ (by norm_num)
      rw [if_neg single, List.nil_append, readScales_behind (by decide) one, if_pos rest,
        Option.some_inj]
      omega
    · -- A multiplier in front of the one of the entry.
      have word := smallWord_ne (by omega : 0 < n / 1000) (by omega) thousand_noName
      have broken : readBelowThousand ([smallWord (n / 1000)] ++ ["one"]) = none := rfl
      rw [if_pos often, readScales_broken (by simp [word.symm]) broken]
      simp only [reduceCtorEq, false_iff]
      omega
  · have tokens : cardinalTokens n = ((if 20000 ≤ n then cardinalTokens (n / 10000) else []) ++
        ["ten"]) ++ "thousand" :: cardinalTokens (n % 10000) := by
      rw [cardinalTokens, if_neg (by omega), if_neg (by omega)]
      simp
    rcases Nat.lt_or_ge n 1000000 with small | large
    · rw [tokens]
      rcases Nat.lt_or_ge n 20000 with once | often
      · have single : ¬ 20000 ≤ n := by omega
        rw [if_neg single, List.nil_append, readScales_behind (by decide) ten]
        split
        · rw [Option.some_inj]
          omega
        · simp only [reduceCtorEq, false_iff]
          omega
      · -- A multiplier in front of the ten of the entry.
        have multiplier : cardinalTokens (n / 10000) = [smallWord (n / 10000)] := by
          rw [tokens_below (by omega), if_neg (by omega), Nat.mod_eq_of_lt (by omega),
            if_neg (by omega)]
          rfl
        have word := smallWord_ne (by omega : 0 < n / 10000) (by omega) thousand_noName
        have broken : readBelowThousand ([smallWord (n / 10000)] ++ ["ten"]) = none := rfl
        rw [if_pos often, multiplier, readScales_broken (by simp [word.symm]) broken]
        simp only [reduceCtorEq, false_iff]
        omega
    · -- Without a larger scale no cardinal is that large.
      constructor
      · intro read
        have bound := readScales_lt read
        omega
      · omega

end Reading

section Claim

variable [NumberLanguages]

/-- The words of a 64-bit number are a cardinal of it exactly below two thousand, and from ten
thousand to below eleven thousand. -/
theorem readCardinal_expandNumber_iff (n : UInt64) :
    readCardinal (expandNumber (toString n.toNat) "eng") = some n.toNat ↔
      n < 2000 ∨ (10000 ≤ n ∧ n < 11000) := by
  have order : n < 2000 ∨ (10000 ≤ n ∧ n < 11000) ↔
      n.toNat < 2000 ∨ (10000 ≤ n.toNat ∧ n.toNat < 11000) := by
    rw [UInt64.lt_iff_toNat_lt, UInt64.le_iff_toNat_le, UInt64.lt_iff_toNat_lt]
    rfl
  rw [order, expandNumber_digits]
  rcases Nat.eq_zero_or_pos n.toNat with zero | positive
  · have found : engTable.lookup (toString 0) = some "zero" := by decide
    have english : num2lang "eng" = some engTable := rfl
    rw [zero, tableCardinal, english, Option.bind_some, found]
    simp only [Nat.ofNat_pos, true_or, iff_true]
    rfl
  · rcases tableCardinal_eng positive n.toNat_lt with ⟨text, made, tokens⟩
    rw [made, Option.getD_some, readCardinal, tokens, readWords_cardinalTokens positive]

end Claim

end Batchalign.Asr

namespace Batchalign.Asr.Documented

instance plainLanguages : NumberLanguages where
  table lang := if lang = "fra" then some [("0", "zéro"), ("1", "un"), ("5", "cinq")] else none
  allowsNumbers lang :=
    ["zho", "cym", "vie", "tha", "nan", "yue", "min", "hak"].contains lang
  isAlphabetic := Char.isAlpha

/-- Two thousand gets a second count. -/
theorem expandNumber_twoThousand :
    expandNumber (toString 2000) "eng" = "two one thousand" ∧
      readCardinal (expandNumber (toString 2000) "eng") ≠ some 2000 := by
  have two : decomposeFrom engEntries (2000 / 1000) engEntries = some ["two"] :=
    decomposeFrom_member engEntries_sorted (by norm_num) (by decide)
  have skipped : decomposeFrom engEntries 2000 engEntries =
      decomposeFrom engEntries 2000 thousandEntries := decomposeFrom_skip (by norm_num)
  have once : decomposeFrom engEntries 2000 thousandEntries = some ["two one thousand"] := by
    rw [thousandEntries, decomposeFrom_often (by norm_num) (by norm_num) two, if_pos (by norm_num)]
    decide
  have text : expandNumber (toString 2000) "eng" = "two one thousand" := by
    have absent : engTable.lookup (toString 2000) = none := by decide
    have english : num2lang "eng" = some engTable := rfl
    rw [expandNumber_digits, tableCardinal, english, Option.bind_some, absent, Option.none_or,
      parseU64_toString (by norm_num), Option.bind_some, decomposeWithTable, if_neg (by norm_num),
      tableEntries_engTable, skipped, once]
    decide
  rw [text]
  decide

end Batchalign.Asr.Documented
