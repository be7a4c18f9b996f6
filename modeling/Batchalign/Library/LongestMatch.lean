import Mathlib

/-!
# Replacing the longest match

A table gives a word for each of its patterns. What is replaced at a place of a text is the
longest pattern that the text goes on with there, and the reading goes on behind it. How the
longest pattern is found does not matter (`ChoosesLongest`).

Where the patterns are letters and pairs of letters and no word is longer or shorter than its
pattern, the text is read letter by letter with one letter ahead (`replaceAll_eq_scan`). A second
reading then finds something new only where the word of one entry is the second letter of another
entry's pattern (`seams`), so that it changes no text without a seam (`scan_scan`).
-/

namespace LongestMatch

variable {α : Type*} [DecidableEq α]

section Engines

/-- The count says how many letters of a match are still to be passed. -/
def replaceFrom (choose : List α → Option (List α × List α)) : ℕ → List α → List α
  | _, [] => []
  | skip + 1, _ :: rest => replaceFrom choose skip rest
  | 0, c :: rest =>
      match choose (c :: rest) with
      | some entry => entry.2 ++ replaceFrom choose (entry.1.length - 1) rest
      | none => c :: replaceFrom choose 0 rest

def replaceAll (choose : List α → Option (List α × List α)) (text : List α) : List α :=
  replaceFrom choose 0 text

variable {ε κ ω : Type*}

/-- The entry of the longest pattern at the front of the text. -/
def leftmostLongest (pattern : ε → List α) (entries : List ε) (text : List α) : Option ε :=
  (entries.filter fun entry => pattern entry <+: text).argmax fun entry => (pattern entry).length

/-- The first of the alternatives that the text goes on with. -/
def firstAlternative (pattern : κ → List α) (alternatives : List κ) (text : List α) : Option κ :=
  alternatives.find? fun key => pattern key <+: text

/-- The longest alternatives first, those of one length in their order. -/
def longestFirst (pattern : κ → List α) (alternatives : List κ) : List κ :=
  alternatives.insertionSort fun one other => (pattern other).length ≤ (pattern one).length

/-- What an engine has to find at the front of a text. -/
structure IsLongest (table : List (List α × List α)) (text : List α)
    (entry : List α × List α) : Prop where
  mem : entry ∈ table
  here : entry.1 <+: text
  longest : ∀ other ∈ table, other.1 <+: text → other.1.length ≤ entry.1.length

structure ChoosesLongest (table : List (List α × List α))
    (choose : List α → Option (List α × List α)) : Prop where
  some : ∀ {text entry}, choose text = some entry → IsLongest table text entry
  none : ∀ {text}, choose text = none → ∀ entry ∈ table, ¬ entry.1 <+: text

variable {text : List α}

theorem choosesLongest_leftmostLongest (pattern word : ε → List α) (entries : List ε) :
    ChoosesLongest (entries.map fun entry => (pattern entry, word entry)) fun text =>
      (leftmostLongest pattern entries text).map fun entry => (pattern entry, word entry) where
  some {text _} chosen := by
    obtain ⟨entry, best, rfl⟩ := Option.map_eq_some_iff.mp chosen
    have found := List.mem_filter.mp (List.argmax_mem best)
    refine ⟨List.mem_map.mpr ⟨entry, found.1, rfl⟩, by simpa using found.2, ?_⟩
    intro _ member here
    obtain ⟨other, known, rfl⟩ := List.mem_map.mp member
    apply List.le_of_mem_argmax (f := fun entry => (pattern entry).length) _ best
    exact List.mem_filter.mpr ⟨known, by simpa using here⟩
  none {text} chosen := by
    intro _ member here
    obtain ⟨other, known, rfl⟩ := List.mem_map.mp member
    have empty := List.argmax_eq_none.mp (Option.map_eq_none_iff.mp chosen)
    exact List.filter_eq_nil_iff.mp empty other known (by simpa using here)

variable {pattern : κ → List α}

omit [DecidableEq α] in
theorem pairwise_longestFirst (pattern : κ → List α) (alternatives : List κ) :
    (longestFirst pattern alternatives).Pairwise fun one other =>
      (pattern other).length ≤ (pattern one).length := by
  have total : Std.Total fun one other => (pattern other).length ≤ (pattern one).length :=
    ⟨fun one other => Nat.le_total (pattern other).length (pattern one).length⟩
  have trans : IsTrans κ fun one other => (pattern other).length ≤ (pattern one).length :=
    ⟨fun _ _ _ first second => second.trans first⟩
  exact List.pairwise_insertionSort _ alternatives

theorem length_le_of_firstAlternative {alternatives : List κ} {key other : κ}
    (sorted : alternatives.Pairwise fun one other =>
      (pattern other).length ≤ (pattern one).length)
    (chosen : firstAlternative pattern alternatives text = some key)
    (member : other ∈ alternatives) (here : pattern other <+: text) :
    (pattern other).length ≤ (pattern key).length := by
  obtain ⟨_, front, back, rfl, passed⟩ := List.find?_eq_some_iff_append.mp chosen
  rcases List.mem_append.mp member with inFront | inBack
  · simpa [here] using passed other inFront
  · rcases List.mem_cons.mp inBack with rfl | behind
    · exact le_refl _
    · have fromKey := (List.pairwise_append.mp sorted).2.1
      exact (List.pairwise_cons.mp fromKey).1 other behind

omit [DecidableEq α] in
theorem lookup_eq_some_iff_mem [BEq κ] [LawfulBEq κ] {entries : List (κ × ω)}
    (distinct : (entries.map Prod.fst).Nodup) {key : κ} {value : ω} :
    entries.lookup key = some value ↔ (key, value) ∈ entries := by
  induction entries with
  | nil => simp
  | cons entry entries ih =>
      obtain ⟨first, answer⟩ := entry
      obtain ⟨fresh, distinct⟩ := List.nodup_cons.mp distinct
      rw [List.lookup_cons, List.mem_cons]
      by_cases same : key = first
      · subst same
        have elsewhere : (key, value) ∉ entries := fun member =>
          fresh (List.mem_map.mpr ⟨_, member, rfl⟩)
        simp [elsewhere, eq_comm]
      · have apart : (key == first) = false := by simpa using same
        simp [apart, same, ih distinct]

/-- Alternatives that are tried longest first, each with its word from a dictionary. -/
theorem choosesLongest_firstAlternative [BEq κ] [LawfulBEq κ] {entries : List (κ × ω)}
    (pattern : κ → List α) (word : ω → List α) (distinct : (entries.map Prod.fst).Nodup) :
    ChoosesLongest (entries.map fun entry => (pattern entry.1, word entry.2)) fun text =>
      (firstAlternative pattern (longestFirst pattern (entries.map Prod.fst)) text).map fun key =>
        (pattern key, ((entries.lookup key).map word).getD (pattern key)) where
  some {text _} chosen := by
    obtain ⟨key, found, rfl⟩ := Option.map_eq_some_iff.mp chosen
    have member := (List.mem_insertionSort _).mp (List.mem_of_find?_eq_some found)
    obtain ⟨⟨_, value⟩, inTable, rfl⟩ := List.mem_map.mp member
    have known := (lookup_eq_some_iff_mem distinct).mpr inTable
    refine ⟨List.mem_map.mpr ⟨_, inTable, by simp [known]⟩,
      by simpa using List.find?_some found, ?_⟩
    intro _ listed here
    obtain ⟨other, inTable, rfl⟩ := List.mem_map.mp listed
    apply length_le_of_firstAlternative (pairwise_longestFirst pattern _) found _ here
    exact (List.mem_insertionSort _).mpr (List.mem_map_of_mem inTable)
  none {text} chosen := by
    intro _ listed here
    obtain ⟨entry, member, rfl⟩ := List.mem_map.mp listed
    have nowhere := List.find?_eq_none.mp (Option.map_eq_none_iff.mp chosen)
    apply nowhere entry.1 _ (by simpa using here)
    exact (List.mem_insertionSort _).mpr (List.mem_map_of_mem member)

end Engines

section Scan

/-- Reads a pair of letters where one starts and one letter elsewhere. -/
def scan (pair : α → α → Option (α × α)) (letter : α → α) : List α → List α
  | [] => []
  | [c] => [letter c]
  | c :: d :: rest =>
      match pair c d with
      | some word => word.1 :: word.2 :: scan pair letter rest
      | none => letter c :: scan pair letter (d :: rest)

variable {pair other : α → α → Option (α × α)} {letter letter' : α → α} {c d : α}
  {front rest text : List α}

omit [DecidableEq α]

theorem scan_pair {word : α × α} (found : pair c d = some word) :
    scan pair letter (c :: d :: rest) = word.1 :: word.2 :: scan pair letter rest := by
  simp [scan, found]

theorem scan_letter (alone : ∀ d, rest.head? = some d → pair c d = none) :
    scan pair letter (c :: rest) = letter c :: scan pair letter rest := by
  cases rest with
  | nil => rfl
  | cons d rest => simp [scan, alone d rfl]

theorem length_scan : (scan pair letter text).length = text.length := by
  fun_induction scan pair letter text with
  | case1 => rfl
  | case2 c => rfl
  | case3 c d rest word found ih => simp [ih]
  | case4 c d rest alone ih => simpa using ih

/-- A letter that ends no pair is always read first. -/
theorem scan_append (ends : ∀ b, pair b c = none) :
    scan pair letter (front ++ c :: rest) =
      scan pair letter front ++ scan pair letter (c :: rest) := by
  fun_induction scan pair letter front with
  | case1 => rfl
  | case2 b =>
      apply scan_letter
      intro d first
      obtain rfl : c = d := by simpa using first
      exact ends b
  | case3 b d front word found ih =>
      rw [List.cons_append, List.cons_append, scan_pair found, ih]
      rfl
  | case4 b d front alone ih =>
      rw [List.cons_append, scan_letter (by simpa using alone), ih]
      rfl

theorem scan_congr
    (pairs : ∀ c d, [c, d] <:+: text → pair c d = other c d)
    (letters : ∀ c ∈ text, letter c = letter' c) :
    scan pair letter text = scan other letter' text := by
  fun_induction scan pair letter text with
  | case1 => rfl
  | case2 c => simp [scan, letters c]
  | case3 c d rest word found ih =>
      rw [pairs c d ⟨[], rest, rfl⟩] at found
      rw [scan_pair found, ih]
      · intro a b within
        apply pairs a b
        exact within.trans (List.suffix_append [c, d] rest).isInfix
      · intro a member
        exact letters a (by simp [member])
  | case4 c d rest alone ih =>
      rw [pairs c d ⟨[], rest, rfl⟩] at alone
      have elsewhere : scan other letter' (c :: d :: rest) =
          letter' c :: scan other letter' (d :: rest) := scan_letter (by simpa using alone)
      rw [elsewhere, ih, letters c (by simp)]
      · intro a b within
        apply pairs a b
        exact within.trans (List.suffix_cons c (d :: rest)).isInfix
      · intro a member
        exact letters a (by simp [member])

/-- Behind a letter that ends no pair the second reading differs where the first has put the
second letter of a pair. -/
theorem scan_scan_ne {e : α} {more : List α} {word : α × α} (ends : ∀ b, pair b c = none)
    (read : scan pair letter (c :: rest) = c :: e :: more) (joined : pair c e = some word)
    (changes : word.2 ≠ e) :
    scan pair letter (scan pair letter (front ++ c :: rest)) ≠
      scan pair letter (front ++ c :: rest) := by
  rw [scan_append ends, read, scan_append ends, scan_pair joined]
  intro same
  have behind := (List.append_inj same length_scan).2
  simp only [List.cons.injEq] at behind
  exact changes behind.2.1

/-- Two readings differ where they differ behind a letter that ends no pair. -/
theorem scan_ne (ends : ∀ b, pair b c = none) (ends' : ∀ b, other b c = none)
    (apart : scan pair letter (c :: rest) ≠ scan other letter' (c :: rest)) :
    scan pair letter (front ++ c :: rest) ≠ scan other letter' (front ++ c :: rest) := by
  rw [scan_append ends, scan_append ends']
  intro same
  exact apart (List.append_inj same (length_scan.trans length_scan.symm)).2

end Scan

section ShortTables

/-- Patterns are letters and pairs of letters, each with a word of its own length. -/
structure IsShort (table : List (List α × List α)) : Prop where
  distinct : (table.map Prod.fst).Nodup
  lengths : ∀ entry ∈ table,
    (entry.1.length = 1 ∨ entry.1.length = 2) ∧ entry.2.length = entry.1.length

def pairOf (table : List (List α × List α)) (c d : α) : Option (α × α) :=
  match table.lookup [c, d] with
  | some [a, b] => some (a, b)
  | _ => none

def letterOf (table : List (List α × List α)) (c : α) : α :=
  match table.lookup [c] with
  | some [a] => a
  | _ => c

variable {table : List (List α × List α)} {choose : List α → Option (List α × List α)}
  {c d : α} {rest text : List α}

theorem pairOf_eq_some_iff (short : IsShort table) {word : α × α} :
    pairOf table c d = some word ↔ ([c, d], [word.1, word.2]) ∈ table := by
  rw [← lookup_eq_some_iff_mem short.distinct, pairOf]
  split
  · next a b known => simp [known, Prod.ext_iff]
  · next other =>
      constructor
      · intro impossible
        cases impossible
      · intro known
        exact absurd known (other word.1 word.2)

/-- The word of a pattern with two letters has two letters. -/
theorem exists_pairOf (short : IsShort table) {word : List α} (member : ([c, d], word) ∈ table) :
    ∃ a b, word = [a, b] ∧ pairOf table c d = some (a, b) := by
  obtain ⟨a, b, rfl⟩ := List.length_eq_two.mp (short.lengths _ member).2
  exact ⟨a, b, rfl, (pairOf_eq_some_iff short).mpr member⟩

theorem letterOf_of_mem (short : IsShort table) {word : List α} (member : ([c], word) ∈ table) :
    word = [letterOf table c] := by
  obtain ⟨a, rfl⟩ := List.length_eq_one_iff.mp (short.lengths _ member).2
  simp [letterOf, (lookup_eq_some_iff_mem short.distinct).mpr member]

theorem letterOf_of_notMem (short : IsShort table) (absent : ∀ word, ([c], word) ∉ table) :
    letterOf table c = c := by
  cases known : table.lookup [c] with
  | none => simp [letterOf, known]
  | some word => exact absurd ((lookup_eq_some_iff_mem short.distinct).mp known) (absent word)

theorem replaceAll_pair (short : IsShort table) (chooses : ChoosesLongest table choose)
    {word : α × α} (found : pairOf table c d = some word) :
    replaceAll choose (c :: d :: rest) = word.1 :: word.2 :: replaceAll choose rest := by
  have member := (pairOf_eq_some_iff short).mp found
  have here : [c, d] <+: c :: d :: rest := ⟨rest, rfl⟩
  cases chosen : choose (c :: d :: rest) with
  | none => exact absurd here (chooses.none chosen _ member)
  | some entry =>
      have spec := chooses.some chosen
      have long : 2 ≤ entry.1.length := spec.longest _ member here
      have two : entry.1.length = 2 := by
        have := (short.lengths entry spec.mem).1
        omega
      have pattern : entry.1 = [c, d] :=
        (List.prefix_of_prefix_length_le spec.here here two.le).eq_of_length two
      obtain ⟨key, value⟩ := entry
      obtain rfl : key = [c, d] := pattern
      obtain ⟨a, b, rfl, same⟩ := exists_pairOf short spec.mem
      obtain rfl : word = (a, b) := Option.some.inj (found.symm.trans same)
      simp [replaceAll, replaceFrom, chosen]

theorem replaceAll_letter (short : IsShort table) (chooses : ChoosesLongest table choose)
    (alone : ∀ d, rest.head? = some d → pairOf table c d = none) :
    replaceAll choose (c :: rest) = letterOf table c :: replaceAll choose rest := by
  cases chosen : choose (c :: rest) with
  | none =>
      have absent (word : List α) : ([c], word) ∉ table := fun member =>
        chooses.none chosen _ member ⟨rest, rfl⟩
      simp [replaceAll, replaceFrom, chosen, letterOf_of_notMem short absent]
  | some entry =>
      obtain ⟨key, value⟩ := entry
      have spec := chooses.some chosen
      obtain ⟨behind, continued⟩ := spec.here
      rcases (short.lengths _ spec.mem).1 with one | two
      · obtain ⟨c', rfl⟩ := List.length_eq_one_iff.mp one
        obtain ⟨rfl, rfl⟩ : c' = c ∧ behind = rest := by simpa using continued
        simp [replaceAll, replaceFrom, chosen, letterOf_of_mem short spec.mem]
      · obtain ⟨c', d, rfl⟩ := List.length_eq_two.mp two
        obtain ⟨rfl, rfl⟩ : c' = c ∧ d :: behind = rest := by simpa using continued
        obtain ⟨a, b, -, found⟩ := exists_pairOf short spec.mem
        rw [alone d rfl] at found
        cases found

theorem pairOf_eq_none_of_last (short : IsShort table)
    (ends : ∀ entry ∈ table, entry.1[1]? ≠ some d) : pairOf table c d = none := by
  rw [Option.eq_none_iff_forall_ne_some]
  intro word found
  exact ends _ ((pairOf_eq_some_iff short).mp found) rfl

theorem pairOf_congr {other : List (List α × List α)} (short : IsShort table)
    (short' : IsShort other)
    (same : ∀ word, ([c, d], word) ∈ table ↔ ([c, d], word) ∈ other) :
    pairOf table c d = pairOf other c d := by
  ext word
  rw [pairOf_eq_some_iff short, pairOf_eq_some_iff short', same]

/-- An entry that keeps a letter makes no difference. -/
theorem letterOf_congr {other : List (List α × List α)} (short : IsShort table)
    (short' : IsShort other)
    (same : ∀ word, word ≠ [c] → (([c], word) ∈ table ↔ ([c], word) ∈ other)) :
    letterOf table c = letterOf other c := by
  have kept {table other : List (List α × List α)} (short : IsShort table)
      (short' : IsShort other)
      (within : ∀ word, word ≠ [c] → ([c], word) ∈ table → ([c], word) ∈ other)
      (changed : letterOf table c ≠ c) : letterOf other c = letterOf table c := by
    obtain ⟨word, member⟩ : ∃ word, ([c], word) ∈ table := by
      by_contra absent
      exact changed (letterOf_of_notMem short (not_exists.mp absent))
    obtain rfl := letterOf_of_mem short member
    simpa [eq_comm] using letterOf_of_mem short' (within _ (by simpa using changed) member)
  by_cases changed : letterOf table c = c
  · by_cases changed' : letterOf other c = c
    · exact changed.trans changed'.symm
    · exact kept short' short (fun word apart => (same word apart).mpr) changed'
  · exact (kept short short' (fun word apart => (same word apart).mp) changed).symm

/-- Where all entries for a letter start with one letter, so does what is read for it. -/
theorem head_scan_of_forall {e : α} (short : IsShort table) (known : letterOf table c = e)
    (only : ∀ entry ∈ table, entry.1.head? = some c → entry.2.head? = some e) :
    (scan (pairOf table) (letterOf table) (c :: rest)).head? = some e := by
  cases rest with
  | nil => simp [scan, known]
  | cons d rest =>
      cases found : pairOf table c d with
      | none =>
          rw [scan_letter (by simpa using found), known]
          rfl
      | some word =>
          rw [scan_pair found]
          exact only _ ((pairOf_eq_some_iff short).mp found) rfl

/-- Every engine that finds the longest pattern reads a text in the same way. -/
theorem replaceAll_eq_scan (short : IsShort table) (chooses : ChoosesLongest table choose)
    (text : List α) :
    replaceAll choose text = scan (pairOf table) (letterOf table) text := by
  fun_induction scan (pairOf table) (letterOf table) text with
  | case1 => rfl
  | case2 c => exact replaceAll_letter short chooses (by simp)
  | case3 c d rest word found ih => rw [replaceAll_pair short chooses found, ih]
  | case4 c d rest alone ih =>
      rw [replaceAll_letter short chooses (by simpa using alone), ih]

end ShortTables

section Seams

/-- The patterns behind a letter that is kept but starts a pair with their words. -/
def seams (table : List (List α × List α)) : List (List α) :=
  (table.flatMap fun joined =>
    (table.filter fun entry => entry.2.head? = joined.1[1]?).map fun entry =>
      joined.1.take 1 ++ entry.1).filter fun seam =>
    seam.take 1 ∉ table.map Prod.fst ∧ seam.take 2 ∉ table.map Prod.fst

/-- No word is taken up again: the word of a letter starts no pattern, and that of a pair is kept
as a whole, or else is no pattern, starts with none and its second letter starts none. -/
structure IsSettled (table : List (List α × List α)) : Prop where
  letters : ∀ entry ∈ table, entry.1.length = 1 → ∀ other ∈ table, other.1.head? ≠ entry.2.head?
  pairs : ∀ entry ∈ table, entry.1.length = 2 → (entry.2, entry.2) ∈ table ∨
    ∀ other ∈ table, ¬ other.1 <+: entry.2 ∧ other.1.head? ≠ entry.2[1]?

variable {table : List (List α × List α)} {c d e : α} {rest text : List α}

theorem mem_seams {entry : List α × List α} {word : List α} (joined : ([c, e], word) ∈ table)
    (member : entry ∈ table) (first : entry.2.head? = some e)
    (kept : ∀ word, ([c], word) ∉ table)
    (apart : ∀ d, entry.1.head? = some d → ∀ word, ([c, d], word) ∉ table) :
    c :: entry.1 ∈ seams table := by
  have unknown : [c] ∉ table.map Prod.fst := by simpa using kept
  have together : (c :: entry.1).take 2 ∉ table.map Prod.fst := by
    cases pattern : entry.1 with
    | nil => exact unknown
    | cons d more => simpa using apart d (by rw [pattern]; rfl)
  apply List.mem_filter.mpr
  constructor
  · refine List.mem_flatMap.mpr ⟨_, joined, List.mem_map.mpr ⟨entry, ?_, rfl⟩⟩
    exact List.mem_filter.mpr ⟨member, by simpa using first⟩
  · exact decide_eq_true ⟨unknown, together⟩

theorem pairOf_eq_none_of_head (short : IsShort table)
    (starts : ∀ other ∈ table, other.1.head? ≠ some c) : pairOf table c d = none := by
  rw [Option.eq_none_iff_forall_ne_some]
  intro word found
  exact starts _ ((pairOf_eq_some_iff short).mp found) rfl

theorem letterOf_of_head (short : IsShort table)
    (starts : ∀ other ∈ table, other.1.head? ≠ some c) : letterOf table c = c :=
  letterOf_of_notMem short fun _ member => starts _ member rfl

theorem letterOf_letterOf (short : IsShort table) (settled : IsSettled table) :
    letterOf table (letterOf table c) = letterOf table c := by
  by_cases known : ∃ word, ([c], word) ∈ table
  · obtain ⟨word, member⟩ := known
    obtain rfl := letterOf_of_mem short member
    exact letterOf_of_head short (settled.letters _ member rfl)
  · rw [letterOf_of_notMem short (not_exists.mp known)]
    exact letterOf_of_notMem short (not_exists.mp known)

/-- What is read first is the first letter itself or comes from an entry for what is there. -/
theorem head_scan (short : IsShort table)
    (first : (scan (pairOf table) (letterOf table) text).head? = some e) :
    text.head? = some e ∨ ∃ entry ∈ table, entry.1 <+: text ∧ entry.2.head? = some e := by
  have fromLetter {c : α} {rest : List α} (read : some (letterOf table c) = some e) :
      (c :: rest).head? = some e ∨
        ∃ entry ∈ table, entry.1 <+: c :: rest ∧ entry.2.head? = some e := by
    by_cases known : ∃ word, ([c], word) ∈ table
    · obtain ⟨word, member⟩ := known
      obtain rfl := letterOf_of_mem short member
      exact Or.inr ⟨_, member, ⟨rest, rfl⟩, read⟩
    · rw [letterOf_of_notMem short (not_exists.mp known)] at read
      exact Or.inl read
  fun_cases scan (pairOf table) (letterOf table) text with
  | case1 => simp [scan] at first
  | case2 c => exact fromLetter first
  | case3 c d rest word found =>
      rw [scan_pair found] at first
      exact Or.inr ⟨_, (pairOf_eq_some_iff short).mp found, ⟨rest, rfl⟩, first⟩
  | case4 c d rest alone =>
      rw [scan_letter (by simpa using alone)] at first
      exact fromLetter first

/-- Without a seam a letter that is read alone stays alone. -/
theorem pairOf_letterOf_eq_none (short : IsShort table) (settled : IsSettled table)
    (seamless : ∀ seam ∈ seams table, ¬ seam <:+: c :: d :: rest)
    (alone : pairOf table c d = none)
    (first : (scan (pairOf table) (letterOf table) (d :: rest)).head? = some e) :
    pairOf table (letterOf table c) e = none := by
  by_cases known : ∃ word, ([c], word) ∈ table
  · obtain ⟨word, member⟩ := known
    obtain rfl := letterOf_of_mem short member
    exact pairOf_eq_none_of_head short (settled.letters _ member rfl)
  · rw [letterOf_of_notMem short (not_exists.mp known), Option.eq_none_iff_forall_ne_some]
    intro joined together
    rcases head_scan short first with same | ⟨entry, member, here, word⟩
    · obtain rfl : d = e := by simpa using same
      rw [alone] at together
      cases together
    · apply seamless (c :: entry.1) _ ((List.prefix_cons_inj c).mpr here).isInfix
      apply mem_seams ((pairOf_eq_some_iff short).mp together) member word (not_exists.mp known)
      intro d' start other pair
      obtain ⟨behind, continued⟩ := here
      obtain ⟨more, pattern⟩ : ∃ more, entry.1 = d' :: more := List.head?_eq_some_iff.mp start
      obtain rfl : d' = d := by simp [pattern] at continued; exact continued.1
      obtain ⟨a, b, -, found⟩ := exists_pairOf short pair
      rw [alone] at found
      cases found

/-- A second reading changes nothing in a text without a seam. -/
theorem scan_scan (short : IsShort table) (settled : IsSettled table)
    (seamless : ∀ seam ∈ seams table, ¬ seam <:+: text) :
    scan (pairOf table) (letterOf table) (scan (pairOf table) (letterOf table) text) =
      scan (pairOf table) (letterOf table) text := by
  fun_induction scan (pairOf table) (letterOf table) text with
  | case1 => rfl
  | case2 c => simp [scan, letterOf_letterOf short settled]
  | case3 c d rest word found ih =>
      have again := ih fun seam member within =>
        seamless seam member (within.trans (List.suffix_append [c, d] rest).isInfix)
      rcases settled.pairs _ ((pairOf_eq_some_iff short).mp found) rfl with kept | fixed
      · rw [scan_pair ((pairOf_eq_some_iff short).mpr kept), again]
      · have apart : pairOf table word.1 word.2 = none := by
          rw [Option.eq_none_iff_forall_ne_some]
          intro other joined
          exact (fixed _ ((pairOf_eq_some_iff short).mp joined)).1 (List.prefix_refl _)
        have single : letterOf table word.1 = word.1 :=
          letterOf_of_notMem short fun _ member => (fixed _ member).1 ⟨[word.2], rfl⟩
        have starts : ∀ other ∈ table, other.1.head? ≠ some word.2 := fun other member =>
          (fixed other member).2
        rw [scan_letter (by simpa using apart), single,
          scan_letter fun _ _ => pairOf_eq_none_of_head short starts,
          letterOf_of_head short starts, again]
  | case4 c d rest alone ih =>
      have again := ih fun seam member within =>
        seamless seam member (within.trans (List.suffix_cons c (d :: rest)).isInfix)
      rw [scan_letter fun e first =>
        pairOf_letterOf_eq_none short settled seamless alone first,
        letterOf_letterOf short settled, again]

end Seams

end LongestMatch
