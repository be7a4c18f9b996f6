import Mathlib
import Batchalign.Asr.EnglishCardinals

/-!
# Expanded numbers without digits

The tables, the Chinese converter and the ordinals of Dutch and Portuguese write no digit. Digits
are left where a handler keeps what it cannot write: English ordinals and decades out of their
range, parts of digit groups and amounts without a cardinal, and the rest of a compound.
-/

namespace Batchalign.Asr

section Digitless

def NoDigits (text : String) : Prop := ∀ c ∈ text.toList, c.isDigit = false

instance (text : String) : Decidable (NoDigits text) :=
  decidable_of_iff ((text.toList.all fun c => ! c.isDigit) = true) (by simp [NoDigits])

@[simp]
theorem noDigits_append {left right : String} :
    NoDigits (left ++ right) ↔ NoDigits left ∧ NoDigits right := by
  simp only [NoDigits, String.toList_append, List.forall_mem_append]

theorem noDigits_ofList {chars : List Char} :
    NoDigits (String.ofList chars) ↔ ∀ c ∈ chars, c.isDigit = false := by
  rw [NoDigits, String.toList_ofList]

theorem noDigits_joinWords {parts : List String} :
    NoDigits (joinWords parts) ↔ ∀ part ∈ parts, NoDigits part := by
  have space : NoDigits " " := by decide
  induction parts with
  | nil => simp [joinWords, NoDigits]
  | cons part parts ih =>
      rcases parts with _ | ⟨next, parts⟩
      · simp [joinWords]
      · rw [joinWords, String.intercalate_cons_cons, noDigits_append, noDigits_append,
          List.forall_mem_cons]
        exact ⟨fun both => ⟨both.1.1, ih.mp both.2⟩, fun both => ⟨⟨both.1, space⟩, ih.mpr both.2⟩⟩

theorem noDigits_wordAt {words : List String} (digitless : ∀ word ∈ words, NoDigits word)
    (index : ℕ) : NoDigits (wordAt words index) := by
  rw [wordAt, List.getD_eq_getElem?_getD]
  cases found : words[index]? with
  | none => decide
  | some word => exact digitless word (List.mem_of_getElem? found)

/-- A text of digits is not without digits. -/
theorem not_noDigits {text : String} (nonempty : text.toList ≠ [])
    (digits : ∀ c ∈ text.toList, c.isDigit) : ¬ NoDigits text := by
  intro none_
  rcases List.exists_mem_of_ne_nil _ nonempty with ⟨c, member⟩
  have isDigit := digits c member
  rw [none_ c member] at isDigit
  cases isDigit

theorem not_noDigits_toString (n : ℕ) : ¬ NoDigits (toString n) :=
  not_noDigits (digits_toString n).1 (digits_toString n).2

end Digitless

section English

def wordLists : List (List String) :=
  [cardinal0To19, cardinalTens, ordinal0To19, ordinalTensMultiple, units, tens, hundreds]

theorem wordLists_noDigits : ∀ words ∈ wordLists, ∀ word ∈ words, NoDigits word := by
  decide

theorem listed_noDigits {words : List String} (listed : words ∈ wordLists) (index : ℕ) :
    NoDigits (wordAt words index) :=
  noDigits_wordAt (wordLists_noDigits words listed) index

theorem cardinals_noDigits (index : ℕ) : NoDigits (wordAt cardinal0To19 index) := by
  apply listed_noDigits
  simp [wordLists]

theorem cardinalTens_noDigits (index : ℕ) : NoDigits (wordAt cardinalTens index) := by
  apply listed_noDigits
  simp [wordLists]

theorem expandOrdinalEng_noDigits_iff (n : ℕ) : NoDigits (expandOrdinalEng n) ↔ n ≤ 9999 := by
  have cardinals := cardinals_noDigits
  have cardinalTens := cardinalTens_noDigits
  have ordinals : ∀ index, NoDigits (wordAt ordinal0To19 index) := by
    apply listed_noDigits
    simp [wordLists]
  have ordinalTens : ∀ index, NoDigits (wordAt ordinalTensMultiple index) := by
    apply listed_noDigits
    simp [wordLists]
  have joints : NoDigits "-" ∧ NoDigits " hundred" ∧ NoDigits "th" ∧ NoDigits " and " ∧
      NoDigits " thousand" ∧ NoDigits ", and " ∧ NoDigits ", " := by simp [NoDigits]
  rcases joints with ⟨hyphen, hundred, suffix, and_, thousand, commaAnd, comma⟩
  induction n using Nat.strong_induction_on with
  | _ n ih =>
      rw [expandOrdinalEng]
      split
      · simp [ordinals]
        omega
      split
      · split
        · simp [ordinalTens]
          omega
        · simp [cardinalTens, ordinals, hyphen]
          omega
      split
      · have rest := (ih (n % 100) (by omega)).mpr (by omega)
        dsimp only
        split
        · simp [cardinals, hundred, suffix]
          omega
        · simp [cardinals, hundred, and_, rest]
          omega
      split
      · have rest := (ih (n % 1000) (by omega)).mpr (by omega)
        dsimp only
        split
        · simp [cardinals, thousand, suffix]
          omega
        · split
          · simp [cardinals, thousand, commaAnd, rest]
            omega
          · simp [cardinals, thousand, comma, rest]
            omega
      · simp only [noDigits_append, not_noDigits_toString, false_and, false_iff]
        omega

theorem cardinalUnder100_noDigits (n : ℕ) : NoDigits (cardinalUnder100 n) := by
  have cardinals := cardinals_noDigits
  have tens := cardinalTens_noDigits
  have hyphen : NoDigits "-" := by decide
  unfold cardinalUnder100
  split
  · exact cardinals _
  split
  · exact tens _
  · simp [cardinals, tens, hyphen]

theorem expandYearEng_noDigits {n : ℕ} (inRange : n < 100 ∨ (1100 ≤ n ∧ n ≤ 2999)) :
    NoDigits (expandYearEng n) := by
  have cardinals := cardinals_noDigits
  have under := cardinalUnder100_noDigits
  have joints : NoDigits "two thousand" ∧ NoDigits "two thousand and " ∧ NoDigits " hundred" ∧
      NoDigits " " := by simp [NoDigits]
  rcases joints with ⟨thousand, thousandAnd, hundred, space⟩
  unfold expandYearEng
  split
  · exact under n
  split
  · omega
  split
  · split
    · exact thousand
    · simp [cardinals, thousandAnd]
  split
  · simp [under, hundred]
  · simp [under, space]

theorem expandYearEng_outside {n : ℕ} (outside : ¬ (n < 100 ∨ (1100 ≤ n ∧ n ≤ 2999))) :
    expandYearEng n = toString n := by
  rw [expandYearEng, if_neg (by omega), if_pos (by omega)]

theorem splitWhitespace_noDigits {text : String} (digitless : NoDigits text) :
    ∀ part ∈ splitWhitespace text, NoDigits part := by
  intro part member
  rcases List.mem_map.mp member with ⟨chars, inside, rfl⟩
  rw [noDigits_ofList]
  intro c isChar
  apply digitless
  exact (mem_of_mem_splitOnP (List.mem_filter.mp inside).1 isChar).1

theorem stripSuffix_noDigits {suffix text stem : String} (digitless : NoDigits text)
    (stripped : stripSuffix suffix text = some stem) : NoDigits stem := by
  unfold stripSuffix at stripped
  split at stripped
  · cases stripped
    rw [noDigits_ofList]
    intro c isChar
    exact digitless c (List.mem_of_mem_take isChar)
  · cases stripped

theorem pluralizeLastWord_noDigits {text : String} (digitless : NoDigits text) :
    NoDigits (pluralizeLastWord text) := by
  have endings : NoDigits "ies" ∧ NoDigits "s" ∧ NoDigits " " := by decide
  have parts := splitWhitespace_noDigits digitless
  unfold pluralizeLastWord
  dsimp only
  split
  · exact digitless
  · rename_i last isLast
    have word := parts last (List.mem_of_getLast? isLast)
    have placed : ∀ {plural : String}, NoDigits plural →
        NoDigits (if (splitWhitespace text).dropLast.isEmpty then plural
          else joinWords (splitWhitespace text).dropLast ++ " " ++ plural) := by
      intro plural isPlural
      split
      · exact isPlural
      · have front : NoDigits (joinWords (splitWhitespace text).dropLast) :=
          noDigits_joinWords.mpr fun part inside => parts part (List.mem_of_mem_dropLast inside)
        exact noDigits_append.mpr ⟨noDigits_append.mpr ⟨front, endings.2.2⟩, isPlural⟩
    cases stripped : stripSuffix "y" last with
    | some stem =>
        exact placed (noDigits_append.mpr ⟨stripSuffix_noDigits word stripped, endings.1⟩)
    | none => exact placed (noDigits_append.mpr ⟨word, endings.2.1⟩)

/-- Digits alone are one word, and keep their digits in the plural. -/
theorem pluralizeLastWord_toString (n : ℕ) :
    pluralizeLastWord (toString n) = toString n ++ "s" := by
  rcases digits_toString n with ⟨_, digits⟩
  have single : splitWhitespace (toString n) = [toString n] := by
    have whole : (toString n).toList.splitOnP isWhitespace = [(toString n).toList] :=
      List.splitOnP_eq_singleton fun c member => digit_not_whitespace (digits c member)
    rw [splitWhitespace, whole, List.filter_cons_of_pos (by simp),
      List.filter_nil, List.map_singleton, String.ofList_toList]
  have noSuffix : stripSuffix "y" (toString n) = none := by
    apply if_neg
    intro suffix
    have ends : 'y' ∈ (toString n).toList :=
      (List.isSuffixOf_iff_suffix.mp suffix).mem (by decide)
    exact digit_ne (digits 'y' ends) rfl rfl
  unfold pluralizeLastWord
  rw [single]
  simp only [List.getLast?_singleton, noSuffix, List.dropLast_singleton, List.isEmpty_nil, if_true]

theorem expandDecadeEng_noDigits_iff (n : ℕ) :
    NoDigits (expandDecadeEng n) ↔ n < 100 ∨ (1100 ≤ n ∧ n ≤ 2999) := by
  constructor
  · intro digitless
    by_contra outside
    rw [expandDecadeEng, if_neg (by omega), expandYearEng_outside outside,
      pluralizeLastWord_toString] at digitless
    exact not_noDigits_toString n (noDigits_append.mp digitless).1
  · intro inRange
    unfold expandDecadeEng
    split
    · exact pluralizeLastWord_noDigits (cardinalUnder100_noDigits n)
    · exact pluralizeLastWord_noDigits (expandYearEng_noDigits inRange)

end English

section Tables

theorem decomposeFrom_noDigits {all entries : List (ℕ × String)} {n : ℕ} {parts : List String}
    (allDigitless : ∀ entry ∈ all, NoDigits entry.2)
    (digitless : ∀ entry ∈ entries, NoDigits entry.2)
    (made : decomposeFrom all n entries = some parts) : ∀ part ∈ parts, NoDigits part := by
  have space : NoDigits " " := by decide
  induction n, entries using decomposeFrom.induct all generalizing parts with
  | case1 =>
      rw [decomposeFrom, if_pos rfl] at made
      cases made
      simp
  | case2 n positive =>
      rw [decomposeFrom, if_neg positive] at made
      cases made
  | case3 n key word rest larger ih =>
      rw [decomposeFrom, if_pos larger] at made
      exact ih (List.forall_mem_cons.mp digitless).2 made
  | case4 n key word rest fits large often ih multiplierIh =>
      rcases List.forall_mem_cons.mp digitless with ⟨first, later⟩
      rw [decomposeFrom, if_neg fits, if_pos large, if_pos often] at made
      rcases Option.bind_eq_some_iff.mp made with ⟨part, isPart, made⟩
      rcases Option.map_eq_some_iff.mp isPart with ⟨multiplier, isMultiplier, rfl⟩
      have words : NoDigits (joinWords multiplier ++ " " ++ word) := by
        have counted := noDigits_joinWords.mpr (multiplierIh allDigitless isMultiplier)
        exact noDigits_append.mpr ⟨noDigits_append.mpr ⟨counted, space⟩, first⟩
      split at made
      · cases made
        simpa using words
      · rcases Option.map_eq_some_iff.mp made with ⟨behind, isBehind, rfl⟩
        exact List.forall_mem_cons.mpr ⟨words, ih later isBehind⟩
  | case5 n key word rest fits large once ih =>
      rcases List.forall_mem_cons.mp digitless with ⟨first, later⟩
      rw [decomposeFrom, if_neg fits, if_pos large, if_neg once] at made
      simp only [Option.bind_eq_bind, Option.bind_some] at made
      split at made
      · cases made
        simpa using first
      · rcases Option.map_eq_some_iff.mp made with ⟨behind, isBehind, rfl⟩
        exact List.forall_mem_cons.mpr ⟨first, ih later isBehind⟩
  | case6 n key word rest fits small whole =>
      rw [decomposeFrom, if_neg fits, if_neg small, if_pos whole] at made
      cases made
      simpa using (List.forall_mem_cons.mp digitless).1
  | case7 n key word rest fits small more ih =>
      rcases List.forall_mem_cons.mp digitless with ⟨first, later⟩
      rw [decomposeFrom, if_neg fits, if_neg small, if_neg more] at made
      rcases Option.map_eq_some_iff.mp made with ⟨behind, isBehind, rfl⟩
      exact List.forall_mem_cons.mpr ⟨first, ih later isBehind⟩

variable [NumberLanguages]

/-- No entry of a table outside of English has a digit. -/
def TablesDigitless : Prop :=
  ∀ lang table, NumberLanguages.table lang = some table → ∀ entry ∈ table, NoDigits entry.2

omit [NumberLanguages] in
theorem namesBelowHundred_noDigits : ∀ name ∈ namesBelowHundred, NoDigits name := by
  have hyphen : NoDigits "-" := by decide
  have single : ∀ name ∈ unitNames ++ teenNames ++ tenNames, NoDigits name := by decide
  intro name member
  rcases List.mem_append.mp member with front | compound
  · exact single name (List.mem_append_left _ front)
  · rcases List.mem_flatMap.mp compound with ⟨ten, isTen, made⟩
    have first := single ten (List.mem_append_right _ isTen)
    rcases List.mem_cons.mp made with rfl | hyphenated
    · exact first
    · rcases List.mem_map.mp hyphenated with ⟨unit, isUnit, rfl⟩
      have last := single unit (by simp [isUnit])
      exact noDigits_append.mpr ⟨noDigits_append.mpr ⟨first, hyphen⟩, last⟩

omit [NumberLanguages] in
theorem engNumbers_noDigits : ∀ entry ∈ engNumbers, NoDigits entry.2 := by
  have large : ∀ entry ∈ [(10000, "ten thousand"), (1000, "one thousand")] ++ hundredNumbers ++
      [(0, "zero")], NoDigits entry.2 := by decide
  intro entry member
  rcases List.mem_append.mp member with front | zero
  · rcases List.mem_append.mp front with upper | small
    · exact large entry (List.mem_append_left _ upper)
    · apply namesBelowHundred_noDigits
      rw [← names_smallNumbers]
      exact List.mem_map_of_mem (List.mem_reverse.mpr small)
  · exact large entry (List.mem_append_right _ zero)

theorem num2lang_noDigits (digitless : TablesDigitless) {lang : String} {table : NumberTable}
    (isTable : num2lang lang = some table) : ∀ entry ∈ table, NoDigits entry.2 := by
  unfold num2lang at isTable
  split at isTable
  · cases isTable
    intro entry member
    rcases List.mem_map.mp member with ⟨number, inside, rfl⟩
    exact engNumbers_noDigits number inside
  · exact digitless lang table isTable

theorem tableCardinal_noDigits (digitless : TablesDigitless) {value lang text : String}
    (made : tableCardinal value lang = some text) : NoDigits text := by
  rcases Option.bind_eq_some_iff.mp made with ⟨table, isTable, made⟩
  have words := num2lang_noDigits digitless isTable
  rcases Option.or_eq_some_iff.mp made with found | ⟨_, decomposed⟩
  · rcases List.lookup_eq_some_iff.mp found with ⟨before, after, entries, _⟩
    exact words (value, text) (by simp [entries])
  · rcases Option.bind_eq_some_iff.mp decomposed with ⟨n, _, decomposed⟩
    unfold decomposeWithTable at decomposed
    split at decomposed
    · rcases List.lookup_eq_some_iff.mp decomposed with ⟨before, after, entries, _⟩
      exact words ("0", text) (by simp [entries])
    · rcases Option.bind_eq_some_iff.mp decomposed with ⟨parts, isParts, joined⟩
      split at joined
      · cases joined
      · cases joined
        have entries : ∀ entry ∈ tableEntries table, NoDigits entry.2 := by
          intro entry member
          have parsed := (List.mem_filter.mp ((List.mem_insertionSort _).mp member)).1
          rcases List.mem_filterMap.mp parsed with ⟨source, inside, isEntry⟩
          rcases Option.map_eq_some_iff.mp isEntry with ⟨key, _, rfl⟩
          exact words source inside
        exact noDigits_joinWords.mpr (decomposeFrom_noDigits entries entries isParts)

omit [NumberLanguages] in
/-- A character of a numeral is no digit. -/
theorem num2chinese_noDigits {num : UInt64} {script : ChineseScript} {text : String}
    (made : num2chinese num script = some text) : NoDigits text := by
  have marks : (numeralMarks.all fun entry => ! entry.1.isDigit) = true := rfl
  have read : ∀ (chars : List Char) (reading after : Reading),
      readChars reading chars = some after → ∀ c ∈ chars, c.isDigit = false := by
    intro chars
    induction chars with
    | nil => simp
    | cons c chars ih =>
        intro reading after isRead
        rw [readChars, List.foldlM_cons] at isRead
        rcases Option.bind_eq_some_iff.mp isRead with ⟨middle, step, rest⟩
        rcases Option.bind_eq_some_iff.mp step with ⟨mark, isMark, _⟩
        rcases List.lookup_eq_some_iff.mp isMark with ⟨before, behind, entries, _⟩
        have noDigit := List.all_eq_true.mp marks (c, mark) (by simp [entries])
        exact List.forall_mem_cons.mpr ⟨by simpa using noDigit, ih middle after rest⟩
  rcases num2chinese_reads num script with ⟨text', made', value⟩
  rw [made, Option.some_inj] at made'
  subst made'
  rcases Option.map_eq_some_iff.mp value with ⟨after, isRead, _⟩
  exact read text.toList _ after isRead

theorem cardinal_noDigits (digitless : TablesDigitless) {value lang text : String}
    {renderer : Renderer} (made : cardinal value lang renderer = some text) : NoDigits text := by
  have chinese : cjkCardinal value renderer = some text → NoDigits text := by
    intro converted
    rcases Option.bind_eq_some_iff.mp converted with ⟨n, _, converted⟩
    split at converted
    · exact num2chinese_noDigits converted
    · exact num2chinese_noDigits converted
    · cases converted
  unfold cardinal at made
  split at made
  · rcases Option.or_eq_some_iff.mp made with converted | ⟨_, fromTable⟩
    · exact chinese converted
    · exact tableCardinal_noDigits digitless fromTable
  · rcases Option.or_eq_some_iff.mp made with converted | ⟨_, fromTable⟩
    · exact chinese converted
    · exact tableCardinal_noDigits digitless fromTable
  · exact tableCardinal_noDigits digitless made

end Tables

section Renderers

theorem inflect_noDigits {feminine plural : Bool} {part : String} (digitless : NoDigits part) :
    NoDigits (inflect feminine plural part) := by
  unfold inflect
  rw [noDigits_ofList, List.forall_mem_append]
  constructor
  · cases feminine with
    | true =>
        intro c member
        rcases List.mem_append.mp member with front | last
        · exact digitless c (List.mem_of_mem_dropLast front)
        · rw [List.mem_singleton.mp last]
          rfl
    | false => exact digitless
  · cases plural with
    | true => simp
    | false => simp

theorem renderPor_noDigits {kind : RuleKind} {groups : NumberGroups} {text : String}
    (made : renderPor kind groups = .ok text) : NoDigits text := by
  unfold renderPor at made
  split at made
  · cases made
  split at made
  · cases made
  split at made
  · cases made
  rename_i n _ _
  cases made
  apply noDigits_joinWords.mpr
  intro part member
  rcases List.mem_map.mp member with ⟨stem, isStem, rfl⟩
  apply inflect_noDigits
  have isPart := (List.mem_filter.mp isStem).1
  split at isPart
  · rw [List.mem_singleton.mp isPart]
    decide
  · simp only [List.mem_cons, List.not_mem_nil, or_false] at isPart
    rcases isPart with rfl | rfl | rfl
    · apply listed_noDigits
      simp [wordLists]
    · apply listed_noDigits
      simp [wordLists]
    · apply listed_noDigits
      simp [wordLists]

variable [NumberLanguages]

theorem ordinalDutch_noDigits (digitless : TablesDigitless) {n : ℕ} {text : String}
    (made : ordinalDutch n = .ok text) : NoDigits text := by
  have irregular : NoDigits "eerste" ∧ NoDigits "derde" ∧ NoDigits "achtste" ∧ NoDigits "de" ∧
      NoDigits "ste" := by decide
  rcases irregular with ⟨first, third, eighth, short, long⟩
  induction n using Nat.strong_induction_on generalizing text with
  | _ n ih =>
      rw [ordinalDutch] at made
      split at made
      · cases made
        exact first
      split at made
      · cases made
        exact third
      split at made
      · cases made
        exact eighth
      split at made
      · split at made
        · cases made
        · rename_i head isHead
          cases rest : ordinalDutch (n % 100) with
          | error reason =>
              rw [rest] at made
              cases made
          | ok tail =>
              rw [rest] at made
              cases made
              exact noDigits_append.mpr
                ⟨tableCardinal_noDigits digitless isHead, ih _ (by omega) rest⟩
      · split at made
        · cases made
        · rename_i cardinal isCardinal
          cases made
          refine noDigits_append.mpr ⟨tableCardinal_noDigits digitless isCardinal, ?_⟩
          split
          · exact short
          · exact long

theorem renderNld_noDigits (digitless : TablesDigitless) {groups : NumberGroups} {text : String}
    (made : renderNld groups = .ok text) : NoDigits text := by
  unfold renderNld at made
  split at made
  · cases made
  · split at made
    · cases made
    · exact ordinalDutch_noDigits digitless made

end Renderers

section Recognition

variable [NumberLanguages]

omit [NumberLanguages] in
theorem leadingDigits_value {chars digits rest : List Char}
    (found : leadingDigits chars = some (digits, rest)) :
    digits ≠ [] ∧ ∀ c ∈ digits, c.isDigit := by
  unfold leadingDigits at found
  dsimp only at found
  split at found
  · cases found
  · rename_i nonempty
    cases found
    exact ⟨by simpa using nonempty, fun c member => List.mem_takeWhile_imp member⟩

omit [NumberLanguages] in
theorem digitsWithSuffix_digits {suffixes : List String} {chars : List Char}
    {groups : NumberGroups} (found : digitsWithSuffix suffixes chars = some groups) :
    groups.value ≠ [] ∧ ∀ c ∈ groups.value, c.isDigit := by
  rcases Option.bind_eq_some_iff.mp found with ⟨⟨digits, suffix⟩, split, found⟩
  dsimp only at found
  split at found
  · cases found
    exact leadingDigits_value split
  · cases found

omit [NumberLanguages] in
theorem ordinalPor_digits {chars : List Char} {groups : NumberGroups}
    (found : ordinalPor chars = some groups) :
    groups.value ≠ [] ∧ ∀ c ∈ groups.value, c.isDigit := by
  rcases Option.bind_eq_some_iff.mp found with ⟨⟨digits, rest⟩, split, found⟩
  dsimp only at found
  split at found
  · split at found
    · cases found
      exact leadingDigits_value split
    · cases found
  · cases found

theorem hyphenCompoundRule_digits {chars : List Char} {groups : NumberGroups}
    (found : hyphenCompoundRule chars = some groups) :
    groups.value ≠ [] ∧ ∀ c ∈ groups.value, c.isDigit := by
  rcases Option.bind_eq_some_iff.mp found with ⟨⟨digits, rest⟩, split, found⟩
  dsimp only at found
  split at found
  · split at found
    · cases found
      exact leadingDigits_value split
    · cases found
  · cases found

/-- A symbol of the two currency rules has a name. -/
def HasCurrency (groups : NumberGroups) : Prop :=
  (currencyNames.lookup (String.ofList groups.symbol)).isSome

omit [NumberLanguages] in
theorem currencyPrefix_captured {chars : List Char} {groups : NumberGroups}
    (found : currencyPrefix chars = some groups) :
    (groups.value ≠ [] ∧ ∀ c ∈ groups.value, c.isDigit) ∧ HasCurrency groups := by
  have named : ∀ symbol ∈ ['$', '€', '£', '¥', '₹', '₩', '₽'],
      (currencyNames.lookup (String.ofList [symbol])).isSome := by
    simp only [List.forall_mem_cons, List.not_mem_nil, false_imp_iff, implies_true, and_true]
    exact ⟨rfl, rfl, rfl, rfl, rfl, rfl, rfl⟩
  unfold currencyPrefix at found
  split at found
  · rename_i symbol rest
    rcases Option.bind_eq_some_iff.mp found with ⟨⟨digits, space⟩, split, found⟩
    dsimp only at found
    split at found
    · rename_i accepted
      cases found
      have isSymbol := (Bool.and_eq_true_iff.mp accepted).1
      exact ⟨leadingDigits_value split, named symbol (List.contains_iff_mem.mp isSymbol)⟩
    · cases found
  · cases found

omit [NumberLanguages] in
theorem currencySuffix_captured {chars : List Char} {groups : NumberGroups}
    (found : currencySuffix chars = some groups) :
    (groups.value ≠ [] ∧ ∀ c ∈ groups.value, c.isDigit) ∧ HasCurrency groups := by
  rcases Option.bind_eq_some_iff.mp found with ⟨⟨digits, rest⟩, split, found⟩
  dsimp only at found
  split at found
  · split at found
    · rename_i isSymbol
      cases found
      refine ⟨leadingDigits_value split, ?_⟩
      rcases isSymbol with rfl | rfl
      · rfl
      · rfl
    · cases found
  · cases found

omit [NumberLanguages] in
theorem digitGroupsRule_parts {chars : List Char} {groups : NumberGroups}
    (found : digitGroupsRule chars = some groups) :
    ∀ part ∈ groups.value.splitOn '-', part ≠ [] ∧ ∀ c ∈ part, c.isDigit := by
  unfold digitGroupsRule at found
  dsimp only at found
  split at found
  · rename_i accepted
    cases found
    intro part member
    have both := List.all_eq_true.mp accepted.2 part member
    simpa using both
  · cases found

/-- The first rule that takes a text has captured its digits. -/
theorem recognize_captured {chars : List Char} {lang : String} {kind : RuleKind}
    {groups : NumberGroups} (found : recognize chars lang = some (kind, groups)) :
    (kind = .digitGroups ∧
        ∀ part ∈ groups.value.splitOn '-', part ≠ [] ∧ ∀ c ∈ part, c.isDigit) ∨
      (kind ≠ .digitGroups ∧ (groups.value ≠ [] ∧ ∀ c ∈ groups.value, c.isDigit) ∧
        (kind = .currency → HasCurrency groups)) := by
  rcases List.exists_of_findSome?_eq_some found with ⟨⟨ruleKind, pattern⟩, isRule, taken⟩
  rcases Option.map_eq_some_iff.mp taken with ⟨captured, matched, same⟩
  cases same
  dsimp only at matched
  rcases List.mem_append.mp isRule with ofLanguage | common
  · right
    unfold languageRules at ofLanguage
    split_ifs at ofLanguage
    · rcases List.mem_singleton.mp ofLanguage with ⟨rfl, rfl⟩
      exact ⟨by decide, digitsWithSuffix_digits matched, by simp⟩
    · simp only [List.mem_cons, Prod.mk.injEq, List.not_mem_nil, or_false] at ofLanguage
      rcases ofLanguage with ⟨rfl, rfl⟩ | ⟨rfl, rfl⟩
      · exact ⟨by decide, digitsWithSuffix_digits matched, by simp⟩
      · exact ⟨by decide, digitsWithSuffix_digits matched, by simp⟩
    · rcases List.mem_singleton.mp ofLanguage with ⟨rfl, rfl⟩
      exact ⟨by decide, ordinalPor_digits matched, by simp⟩
    · cases ofLanguage
  · simp only [commonRules, List.mem_cons, Prod.mk.injEq, List.not_mem_nil, or_false] at common
    rcases common with ⟨rfl, rfl⟩ | ⟨rfl, rfl⟩ | ⟨rfl, rfl⟩ | ⟨rfl, rfl⟩ | ⟨rfl, rfl⟩
    · exact Or.inl ⟨rfl, digitGroupsRule_parts matched⟩
    · exact Or.inr ⟨by simp, hyphenCompoundRule_digits matched, by simp⟩
    · have both := currencyPrefix_captured matched
      exact Or.inr ⟨by simp, both.1, fun _ => both.2⟩
    · have both := currencySuffix_captured matched
      exact Or.inr ⟨by simp, both.1, fun _ => both.2⟩
    · exact Or.inr ⟨by simp, digitsWithSuffix_digits matched, by simp⟩

end Recognition

section Claim

variable [NumberLanguages]

/-- The language has words for all the digits that a rule captured. -/
def Digitless (kind : RuleKind) (groups : NumberGroups) (lang : String) : Prop :=
  let value := String.ofList groups.value
  let renderer := rendererOf lang
  match kind with
  | .cardinal => True
  | .ordinal => renderer = .english → ∀ n, parseU64 value = some n → n ≤ 9999
  | .decade =>
      renderer = .english → ∀ n, parseU64 value = some n → n < 100 ∨ (1100 ≤ n ∧ n ≤ 2999)
  | .digitGroups => ∀ part ∈ splitAt '-' value, (cardinal part lang renderer).isSome
  | .hyphenCompound =>
      NumberLanguages.allowsNumbers lang ∨ cardinal value lang renderer = none ∨
        NoDigits (String.ofList groups.rest)
  | .currency => (cardinal value lang renderer).isSome

theorem cardinalOrDigits_noDigits_iff (digitless : TablesDigitless) {value lang : String}
    {renderer : Renderer} (nonempty : value.toList ≠ [])
    (digits : ∀ c ∈ value.toList, c.isDigit) :
    NoDigits (cardinalOrDigits value lang renderer) ↔ (cardinal value lang renderer).isSome := by
  unfold cardinalOrDigits
  cases made : cardinal value lang renderer with
  | none => simpa using not_noDigits nonempty digits
  | some text => simpa using cardinal_noDigits digitless made

omit [NumberLanguages] in
theorem currencyNames_noDigits {symbol currency : String}
    (named : currencyNames.lookup symbol = some currency) : NoDigits currency := by
  have names : ∀ entry ∈ currencyNames, NoDigits entry.2 := by simp [currencyNames, NoDigits]
  rcases List.lookup_eq_some_iff.mp named with ⟨before, after, entries, _⟩
  exact names (symbol, currency) (by simp [entries])

theorem renderNumber_common {kind : RuleKind} (groups : NumberGroups) (lang : String)
    (notOrdinal : kind ≠ .ordinal) (notDecade : kind ≠ .decade) :
    renderNumber kind groups lang = renderCommon kind groups lang (rendererOf lang) := by
  unfold renderNumber
  split
  · exact absurd rfl notOrdinal
  · exact absurd rfl notDecade
  · exact absurd rfl notOrdinal
  · exact absurd rfl notOrdinal
  · rfl

omit [NumberLanguages] in
theorem value_ofList {chars : List Char} (captured : chars ≠ [] ∧ ∀ c ∈ chars, c.isDigit) :
    (String.ofList chars).toList ≠ [] ∧ ∀ c ∈ (String.ofList chars).toList, c.isDigit := by
  rw [String.toList_ofList]
  exact captured

theorem digitGroups_noDigits_iff (digitless : TablesDigitless) (lang : String)
    {groups : NumberGroups}
    (parts : ∀ part ∈ groups.value.splitOn '-', part ≠ [] ∧ ∀ c ∈ part, c.isDigit) :
    (∀ text, renderNumber .digitGroups groups lang = .ok text → NoDigits text) ↔
      Digitless .digitGroups groups lang := by
  rw [renderNumber_common groups lang (by decide) (by decide)]
  simp only [renderCommon, Except.ok.injEq, forall_eq', noDigits_joinWords, List.forall_mem_map]
  apply forall₂_congr
  intro part member
  rcases List.mem_map.mp member with ⟨chars, inside, rfl⟩
  rw [String.toList_ofList] at inside
  have value := value_ofList (parts chars inside)
  exact cardinalOrDigits_noDigits_iff digitless value.1 value.2

theorem hyphenCompound_noDigits_iff (digitless : TablesDigitless) (lang : String)
    {groups : NumberGroups} (captured : groups.value ≠ [] ∧ ∀ c ∈ groups.value, c.isDigit) :
    (∀ text, renderNumber .hyphenCompound groups lang = .ok text → NoDigits text) ↔
      Digitless .hyphenCompound groups lang := by
  have value := value_ofList captured
  have hyphen : NoDigits "-" := by decide
  rw [renderNumber_common groups lang (by decide) (by decide)]
  simp only [renderCommon, Digitless, cardinalOrDigits]
  by_cases allowed : NumberLanguages.allowsNumbers lang = true
  · simp [allowed]
  · rcases Option.eq_none_or_eq_some (cardinal (String.ofList groups.value) lang
      (rendererOf lang)) with made | ⟨words, made⟩
    · simp [made, allowed]
    · have noDigits := cardinal_noDigits digitless made
      have other : words ≠ String.ofList groups.value := by
        rintro rfl
        exact not_noDigits value.1 value.2 noDigits
      simp [made, allowed, other, noDigits, hyphen]

theorem currency_noDigits_iff (digitless : TablesDigitless) (lang : String)
    {groups : NumberGroups} (captured : groups.value ≠ [] ∧ ∀ c ∈ groups.value, c.isDigit)
    (symbol : HasCurrency groups) :
    (∀ text, renderNumber .currency groups lang = .ok text → NoDigits text) ↔
      Digitless .currency groups lang := by
  have value := value_ofList captured
  have space : NoDigits " " := by decide
  rcases Option.isSome_iff_exists.mp symbol with ⟨currency, named⟩
  have name := currencyNames_noDigits named
  rw [renderNumber_common groups lang (by decide) (by decide)]
  simp only [renderCommon, named, Except.ok.injEq, forall_eq', noDigits_append, Digitless]
  simp [space, name, cardinalOrDigits_noDigits_iff digitless value.1 value.2]

theorem ordinal_noDigits_iff (digitless : TablesDigitless) (groups : NumberGroups)
    (lang : String) :
    (∀ text, renderNumber .ordinal groups lang = .ok text → NoDigits text) ↔
      Digitless .ordinal groups lang := by
  simp only [renderNumber, Digitless]
  cases rendererOf lang with
  | english =>
      simp only [renderEng, forall_const]
      cases parseU64 (String.ofList groups.value) with
      | none => simp
      | some n => simp [expandOrdinalEng_noDigits_iff]
  | dutch => simpa using fun text made => renderNld_noDigits digitless made
  | portuguese => simpa using fun text made => renderPor_noDigits made
  | table => simp [renderCommon]
  | simplified => simp [renderCommon]
  | traditional => simp [renderCommon]

theorem decade_noDigits_iff (groups : NumberGroups) (lang : String) :
    (∀ text, renderNumber .decade groups lang = .ok text → NoDigits text) ↔
      Digitless .decade groups lang := by
  simp only [renderNumber, Digitless]
  cases rendererOf lang with
  | english =>
      simp only [renderEng, forall_const]
      cases parseU64 (String.ofList groups.value) with
      | none => simp
      | some n => simp [expandDecadeEng_noDigits_iff]
  | dutch => simp [renderCommon]
  | portuguese => simp [renderCommon]
  | table => simp [renderCommon]
  | simplified => simp [renderCommon]
  | traditional => simp [renderCommon]

theorem cardinal_digitless (digitless : TablesDigitless) {groups : NumberGroups} {lang : String} :
    ∀ text, renderNumber .cardinal groups lang = .ok text → NoDigits text := by
  intro text made
  rw [renderNumber_common groups lang (by decide) (by decide)] at made
  simp only [renderCommon] at made
  split at made
  · rename_i words isCardinal
    cases made
    exact cardinal_noDigits digitless isCardinal
  · cases made

/-- A text has no digits exactly when the language has words for them. -/
theorem renderNumber_noDigits_iff (digitless : TablesDigitless) {chars : List Char}
    {lang : String} {kind : RuleKind} {groups : NumberGroups}
    (found : recognize chars lang = some (kind, groups)) :
    (∀ text, renderNumber kind groups lang = .ok text → NoDigits text) ↔
      Digitless kind groups lang := by
  rcases recognize_captured found with ⟨rfl, parts⟩ | ⟨noGroups, captured, symbol⟩
  · exact digitGroups_noDigits_iff digitless lang parts
  · cases kind with
    | cardinal => exact iff_of_true (cardinal_digitless digitless) trivial
    | ordinal => exact ordinal_noDigits_iff digitless groups lang
    | decade => exact decade_noDigits_iff groups lang
    | digitGroups => exact absurd rfl noGroups
    | hyphenCompound => exact hyphenCompound_noDigits_iff digitless lang captured
    | currency => exact currency_noDigits_iff digitless lang captured (symbol rfl)

/-- An expanded number has no digits exactly when the language has words for all the digits that
the first rule captures. -/
theorem expand_noDigits_iff (digitless : TablesDigitless) (text lang : String) :
    (∀ sourceSpan rendered, expand text lang = .expanded sourceSpan rendered →
        NoDigits rendered) ↔
      ∀ kind groups,
        recognize (normalizeDashes text).toList (toAsciiLowercase lang) = some (kind, groups) →
          Digitless kind groups (toAsciiLowercase lang) := by
  unfold expand
  dsimp only
  cases found : recognize (normalizeDashes text).toList (toAsciiLowercase lang) with
  | none => simp
  | some rule =>
      rcases rule with ⟨kind, groups⟩
      have rendered := renderNumber_noDigits_iff digitless found
      have single : (∀ kind' groups', some (kind, groups) = some (kind', groups') →
          Digitless kind' groups' (toAsciiLowercase lang)) ↔
            Digitless kind groups (toAsciiLowercase lang) := by
        constructor
        · exact fun all_ => all_ kind groups rfl
        · rintro single _ _ ⟨⟩
          exact single
      rw [single, ← rendered]
      dsimp only
      cases renderNumber kind groups (toAsciiLowercase lang) with
      | error reason =>
          constructor
          · rintro _ text ⟨⟩
          · rintro _ sourceSpan text ⟨⟩
      | ok words =>
          constructor
          · rintro expanded _ ⟨⟩
            exact expanded _ words rfl
          · rintro rendered _ _ ⟨⟩
            exact rendered words rfl

end Claim

end Batchalign.Asr

namespace Batchalign.Asr.Documented

theorem plainLanguages_digitless : TablesDigitless := by
  intro lang table isTable entry member
  change (if lang = "fra" then some [("0", "zéro"), ("1", "un"), ("5", "cinq")] else none) =
    some table at isTable
  split at isTable
  · cases isTable
    have digitless : NoDigits "zéro" ∧ NoDigits "un" ∧ NoDigits "cinq" := by simp [NoDigits]
    simp only [List.mem_cons, List.not_mem_nil, or_false] at member
    rcases member with rfl | rfl | rfl
    · exact digitless.1
    · exact digitless.2.1
    · exact digitless.2.2
  · cases isTable

/-- The table has the amount in words. -/
theorem expand_currency_noDigits :
    expand "$5" "fra" = .expanded (0, 2) "cinq dollars" ∧ NoDigits "cinq dollars" := by
  have expanded : expand "$5" "fra" = .expanded (0, 2) "cinq dollars" := by decide +kernel
  refine ⟨expanded, ?_⟩
  revert expanded
  apply (expand_noDigits_iff plainLanguages_digitless "$5" "fra").mpr
  have recognized : (recognize (normalizeDashes "$5").toList (toAsciiLowercase "fra")).map
      (fun rule => (rule.1, rule.2.value)) = some (.currency, ['5']) := by decide +kernel
  have amount : (cardinal "5" (toAsciiLowercase "fra")
      (rendererOf (toAsciiLowercase "fra"))).isSome := by decide +kernel
  intro kind groups found
  rw [found, Option.map_some, Option.some_inj, Prod.mk.injEq] at recognized
  rcases recognized with ⟨rfl, value⟩
  dsimp only [Digitless]
  rw [value]
  exact amount

/-- An ordinal out of range keeps its digits, and an amount in a language without a table. -/
theorem expand_keeps_digits :
    (expand "10000th" "eng" = .expanded (0, 7) "10000th" ∧ ¬ NoDigits "10000th") ∧
      expand "$5" "xyz" = .expanded (0, 2) "5 dollars" ∧ ¬ NoDigits "5 dollars" := by
  decide +kernel

end Batchalign.Asr.Documented
