import Batchalign.Library.LongestMatch
import Batchalign.Asr.Prepare

/-!
# The spelling of Cantonese

The core and the FunAudio backend (`funaudio.py`) replace words of a Cantonese text, each with a
table of its own and the longest match. Only the core keeps `聯繫` as it is, and only the backend
replaces `喐`, so that the two agree on the texts with neither of them. The core's second pass
changes a text where the first has written `聯係` or `分鍾` across two matches.
-/

namespace Batchalign.Asr

open LongestMatch

section Backend

/-- `_CANTONESE_WORD_REPLACEMENTS`. -/
def cantoneseWordReplacements : List (String × String) :=
  [("系", "係"), ("繫", "係"), ("聯係", "聯繫"), ("系啊", "係啊"), ("真系", "真係"),
    ("唔系", "唔係"), ("呀", "啊"), ("噶", "㗎"), ("咧", "呢"), ("嗬", "喎"),
    ("只", "隻"), ("咯", "囉"), ("嚇", "吓"), ("飲", "飲"), ("喐", "郁"),
    ("食", "食"), ("啫", "咋"), ("哇", "嘩"), ("着", "著"), ("中意", "鍾意"),
    ("嘞", "喇"), ("啵", "噃"), ("遊水", "游水"), ("羣組", "群組"), ("古仔", "故仔"),
    ("甕", "㧬"), ("牀", "床"), ("松", "鬆"), ("較剪", "鉸剪"), ("吵", "嘈"),
    ("衝涼", "沖涼"), ("分鍾", "分鐘"), ("重復", "重複")]

/-- The alternatives of `_CANTO_PATTERN`, sorted by their length in reverse. -/
def cantoPattern : List String :=
  (cantoneseWordReplacements.map Prod.fst).insertionSort fun one other =>
    other.toList.length ≤ one.toList.length

/-- The alternative that matches in front of a text, with its replacement. -/
def cantoSubstitution (chars : List Char) : Option (ℕ × List Char) :=
  (cantoPattern.find? fun key => key.toList.isPrefixOf chars).map fun key =>
    (key.toList.length, ((cantoneseWordReplacements.lookup key).getD key).toList)

/-- `_replace_cantonese`. -/
def replaceCantonese (text : String) : String :=
  String.ofList (replaceMatches cantoSubstitution 0 text.toList)

end Backend

section Readings

def letters (entries : List (String × String)) : List (List Char × List Char) :=
  entries.map fun entry => (entry.1.toList, entry.2.toList)

theorem replaceMatches_eq {find : List Char → Option (ℕ × List Char)}
    {choose : List Char → Option (List Char × List Char)}
    (same : ∀ chars, find chars = (choose chars).map fun entry => (entry.1.length, entry.2))
    (skip : ℕ) (chars : List Char) :
    replaceMatches find skip chars = replaceFrom choose skip chars := by
  fun_induction replaceFrom choose skip chars with
  | case1 => simp [replaceMatches]
  | case2 skip c rest ih => simpa [replaceMatches] using ih
  | case3 c rest entry chosen ih => simp [replaceMatches, same, chosen, ih]
  | case4 c rest chosen ih => simp [replaceMatches, same, chosen, ih]

theorem isShort_replacements : IsShort (letters replacements) where
  distinct := by decide
  lengths := by decide

theorem isShort_cantoneseWordReplacements : IsShort (letters cantoneseWordReplacements) where
  distinct := by decide
  lengths := by decide

theorem isSettled_replacements : IsSettled (letters replacements) where
  letters := by decide
  pairs := by decide

theorem seams_replacements :
    seams (letters replacements) =
      [['聯', '系', '啊'], ['聯', '系'], ['分', '中', '意']] := by
  decide

theorem applyReplacements_eq (text : String) :
    (applyReplacements text).toList =
      scan (pairOf (letters replacements)) (letterOf (letters replacements)) text.toList := by
  rw [applyReplacements, String.toList_ofList, replaceMatches_eq _, ← replaceAll,
    replaceAll_eq_scan isShort_replacements]
  · exact choosesLongest_leftmostLongest (fun entry => entry.1.toList)
      (fun entry => entry.2.toList) replacements
  · intro chars
    rw [Option.map_map]
    simp only [longestReplacement, leftmostLongest, ← List.isPrefixOf_iff_prefix,
      Bool.decide_eq_true, Function.comp_def]

theorem replaceCantonese_eq (text : String) :
    (replaceCantonese text).toList =
      scan (pairOf (letters cantoneseWordReplacements))
        (letterOf (letters cantoneseWordReplacements)) text.toList := by
  rw [replaceCantonese, String.toList_ofList, replaceMatches_eq _, ← replaceAll,
    replaceAll_eq_scan isShort_cantoneseWordReplacements]
  · exact choosesLongest_firstAlternative String.toList String.toList (by decide)
  · intro chars
    rw [Option.map_map]
    simp only [cantoSubstitution, firstAlternative, cantoPattern, longestFirst,
      ← List.isPrefixOf_iff_prefix, Bool.decide_eq_true, Function.comp_def, Option.getD_map]

end Readings

section Agreement

/-- The tables differ in one pair, in one letter, and in letters that stay as they are. -/
theorem tables_differ :
    (∀ entry ∈ letters replacements,
      entry ∈ letters cantoneseWordReplacements ∨ entry.1 = ['聯', '繫']) ∧
    (∀ entry ∈ letters cantoneseWordReplacements,
      entry ∈ letters replacements ∨ entry.1 = ['喐'] ∨
        entry.1.length = 1 ∧ entry.2 = entry.1) := by
  decide

theorem replaceCantonese_eq_applyReplacements {text : String}
    (noWord : ¬ ['聯', '繫'] <:+: text.toList) (noLetter : '喐' ∉ text.toList) :
    replaceCantonese text = applyReplacements text := by
  apply String.toList_inj.mp
  rw [replaceCantonese_eq, applyReplacements_eq]
  apply scan_congr
  · intro c d within
    apply pairOf_congr isShort_cantoneseWordReplacements isShort_replacements
    intro word
    constructor
    · intro member
      apply (tables_differ.2 _ member).resolve_right
      simp
    · intro member
      apply (tables_differ.1 _ member).resolve_right
      intro pattern
      obtain ⟨rfl, rfl⟩ : c = '聯' ∧ d = '繫' := by simpa using pattern
      exact noWord within
  · intro c within
    apply letterOf_congr isShort_cantoneseWordReplacements isShort_replacements
    intro word changes
    constructor
    · intro member
      apply (tables_differ.2 _ member).resolve_right
      rintro (pattern | ⟨-, kept⟩)
      · obtain rfl : c = '喐' := by simpa using pattern
        exact noLetter within
      · exact changes kept
    · intro member
      apply (tables_differ.1 _ member).resolve_right
      simp

/-- The backend reads the second letter of the word on its own. -/
theorem scan_word_ne (rest : List Char) :
    scan (pairOf (letters cantoneseWordReplacements))
        (letterOf (letters cantoneseWordReplacements)) ('聯' :: '繫' :: rest) ≠
      scan (pairOf (letters replacements)) (letterOf (letters replacements))
        ('聯' :: '繫' :: rest) := by
  have alone : pairOf (letters cantoneseWordReplacements) '聯' '繫' = none := by decide
  have kept : pairOf (letters replacements) '聯' '繫' = some ('聯', '繫') := by decide
  have start : (scan (pairOf (letters cantoneseWordReplacements))
      (letterOf (letters cantoneseWordReplacements)) ('繫' :: rest)).head? = some '係' :=
    head_scan_of_forall isShort_cantoneseWordReplacements (by decide) (by decide +kernel)
  rw [scan_letter (by simpa using alone), scan_pair kept]
  intro same
  rw [(List.cons.inj same).2] at start
  simp at start

theorem scan_letter_ne (rest : List Char) :
    scan (pairOf (letters cantoneseWordReplacements))
        (letterOf (letters cantoneseWordReplacements)) ('喐' :: rest) ≠
      scan (pairOf (letters replacements)) (letterOf (letters replacements)) ('喐' :: rest) := by
  have backend : (scan (pairOf (letters cantoneseWordReplacements))
      (letterOf (letters cantoneseWordReplacements)) ('喐' :: rest)).head? = some '郁' :=
    head_scan_of_forall isShort_cantoneseWordReplacements (by decide) (by decide +kernel)
  have core : (scan (pairOf (letters replacements)) (letterOf (letters replacements))
      ('喐' :: rest)).head? = some '喐' :=
    head_scan_of_forall isShort_replacements (by decide) (by decide +kernel)
  intro same
  rw [same, core] at backend
  simp at backend

theorem replaceCantonese_eq_iff (text : String) :
    replaceCantonese text = applyReplacements text ↔
      ¬ ['聯', '繫'] <:+: text.toList ∧ '喐' ∉ text.toList := by
  constructor
  · intro same
    have readings := congrArg String.toList same
    rw [replaceCantonese_eq, applyReplacements_eq] at readings
    have apart {c : Char} {front rest : List Char} (occurs : text.toList = front ++ c :: rest)
        (ends : ∀ entry ∈ letters cantoneseWordReplacements, entry.1[1]? ≠ some c)
        (ends' : ∀ entry ∈ letters replacements, entry.1[1]? ≠ some c) :
        ¬ scan (pairOf (letters cantoneseWordReplacements))
            (letterOf (letters cantoneseWordReplacements)) (c :: rest) ≠
          scan (pairOf (letters replacements)) (letterOf (letters replacements)) (c :: rest) := by
      intro differ
      rw [occurs] at readings
      apply scan_ne _ _ differ readings
      · exact fun _ => pairOf_eq_none_of_last isShort_cantoneseWordReplacements ends
      · exact fun _ => pairOf_eq_none_of_last isShort_replacements ends'
    constructor
    · rintro ⟨front, rest, occurs⟩
      apply apart (occurs.symm.trans (List.append_assoc front _ rest)) _ _ (scan_word_ne rest)
      · decide
      · decide
    · intro member
      obtain ⟨front, rest, occurs⟩ := List.append_of_mem member
      apply apart occurs _ _ (scan_letter_ne rest)
      · decide
      · decide
  · intro avoided
    exact replaceCantonese_eq_applyReplacements avoided.1 avoided.2

end Agreement

section SecondPass

/-- What stands for `系` joins with the letter before it. -/
theorem scan_reads_contact (rest : List Char) :
    ∃ more, scan (pairOf (letters replacements)) (letterOf (letters replacements))
      ('聯' :: '系' :: rest) = '聯' :: '係' :: more := by
  have alone : pairOf (letters replacements) '聯' '系' = none := by decide
  have kept : letterOf (letters replacements) '聯' = '聯' := by decide
  have start : (scan (pairOf (letters replacements)) (letterOf (letters replacements))
      ('系' :: rest)).head? = some '係' :=
    head_scan_of_forall isShort_replacements (by decide) (by decide +kernel)
  obtain ⟨more, read⟩ := List.head?_eq_some_iff.mp start
  exact ⟨more, by rw [scan_letter (by simpa using alone), kept, read]⟩

theorem scan_reads_clock (rest : List Char) :
    ∃ more, scan (pairOf (letters replacements)) (letterOf (letters replacements))
      ('分' :: '中' :: '意' :: rest) = '分' :: '鍾' :: more := by
  have alone : pairOf (letters replacements) '分' '中' = none := by decide
  have kept : letterOf (letters replacements) '分' = '分' := by decide
  have found : pairOf (letters replacements) '中' '意' = some ('鍾', '意') := by decide
  exact ⟨_, by rw [scan_letter (by simpa using alone), kept, scan_pair found]⟩

theorem applyReplacements_twice_iff (text : String) :
    applyReplacements (applyReplacements text) = applyReplacements text ↔
      ¬ ['聯', '系'] <:+: text.toList ∧ ¬ ['分', '中', '意'] <:+: text.toList := by
  rw [← String.toList_inj, applyReplacements_eq, applyReplacements_eq]
  constructor
  · intro same
    constructor
    · rintro ⟨front, rest, occurs⟩
      rw [← occurs, List.append_assoc] at same
      obtain ⟨more, read⟩ := scan_reads_contact rest
      have joined : pairOf (letters replacements) '聯' '係' = some ('聯', '繫') := by decide
      apply scan_scan_ne _ read joined _ same
      · exact fun _ => pairOf_eq_none_of_last isShort_replacements (by decide)
      · simp
    · rintro ⟨front, rest, occurs⟩
      rw [← occurs, List.append_assoc] at same
      obtain ⟨more, read⟩ := scan_reads_clock rest
      have joined : pairOf (letters replacements) '分' '鍾' = some ('分', '鐘') := by decide
      apply scan_scan_ne _ read joined _ same
      · exact fun _ => pairOf_eq_none_of_last isShort_replacements (by decide)
      · simp
  · rintro ⟨noContact, noClock⟩
    apply scan_scan isShort_replacements isSettled_replacements
    rw [seams_replacements]
    simp only [List.forall_mem_cons]
    refine ⟨?_, noContact, noClock, by simp⟩
    intro within
    apply noContact
    exact List.IsInfix.trans ⟨[], ['啊'], rfl⟩ within

end SecondPass

/-- The two normalisers agree on a text, and the core's has nothing left to do, if and only if the
text has none of four words. -/
theorem cantonese_normalisers_iff (text : String) :
    replaceCantonese text = applyReplacements text ∧
        applyReplacements (applyReplacements text) = applyReplacements text ↔
      ¬ ['聯', '繫'] <:+: text.toList ∧ '喐' ∉ text.toList ∧ ¬ ['聯', '系'] <:+: text.toList ∧
        ¬ ['分', '中', '意'] <:+: text.toList := by
  have both := and_congr (replaceCantonese_eq_iff text) (applyReplacements_twice_iff text)
  exact both.trans and_assoc

/-- `聯繫` is the core's own spelling, and `聯系` reaches it only in the second pass. -/
theorem contact_spelling_differs :
    replaceCantonese "聯繫" ≠ applyReplacements "聯繫" ∧
      applyReplacements (applyReplacements "聯系") ≠ applyReplacements "聯系" := by
  decide

end Batchalign.Asr
