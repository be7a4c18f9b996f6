import Batchalign.Morphosyntax.Ascii

/-!
# The repair of the fields

What `_normalize_words` leaves: every word has a part of speech of the table, a lemma if it has a
text, a head in the sentence and a label that agrees with the head. Each field that is replaced
has its entry in the log, and a second repair replaces nothing.
-/

namespace Batchalign.Morphosyntax

open PythonText

section Again

variable [PythonText]

/-- The word as Stanza would say it. -/
def NormalizedWord.asStanzaWord (word : NormalizedWord) : StanzaWord where
  text := some word.text
  lemmaText := some word.lemmaText
  upos := some word.upos
  feats := word.feats
  head := some word.head
  deprel := some word.deprel
  id := some word.id

/-- What the repair asks of a relation. -/
structure AcceptedDeprel (deprel : String) (head : ℕ) : Prop where
  given : deprel ≠ ""
  marked : ¬ ("<".isPrefixOf deprel ∧ deprel.endsWith ">")
  known : deprelHead (casefold deprel) ∈ udDeprels
  root : casefold deprel = "root" ↔ head = 0
  whole : casefold deprel ≠ "iob"

variable {index head count rootId : ℕ} {text : String} {word : StanzaWord}

theorem repairDeprel_of_accepted (accepted : AcceptedDeprel (word.deprel.getD "") head) :
    repairDeprel index text head word = (word.deprel.getD "", []) := by
  unfold repairDeprel
  dsimp only
  rw [if_neg]
  have whole := accepted.whole
  have known := accepted.known
  have marked := accepted.marked
  simp only [accepted.given, whole, known, marked, accepted.root, not_true_eq_false, or_self,
    false_and, not_false_eq_true]

/-- The label that the repair writes. -/
def replacementDeprel (deprel : String) (head : ℕ) : String :=
  if head = 0 then "root" else if casefold deprel = "iob" then "iobj" else "dep"

theorem repairDeprel_of_not_accepted (refused : ¬ AcceptedDeprel (word.deprel.getD "") head) :
    repairDeprel index text head word =
      (replacementDeprel (word.deprel.getD "") head,
        [⟨index, text, "deprel", textValue word.deprel,
          .text (replacementDeprel (word.deprel.getD "") head),
          "missing, truncated, or non-UD relation; or head/root invariant violation"⟩]) := by
  unfold repairDeprel
  dsimp only
  rw [if_pos]
  · rfl
  · by_contra kept
    apply refused
    simp only [not_or] at kept
    rcases kept with ⟨⟨given, marked, known⟩, root, whole⟩
    exact ⟨given, marked, by_contra fun unknown => known ⟨unknown, whole⟩, not_not.mp root, whole⟩

variable [ExtendsAscii]

/-- The written label is one that stays. -/
theorem replacementDeprel_accepted (deprel : String) (head : ℕ) :
    AcceptedDeprel (replacementDeprel deprel head) head := by
  have plain : ∀ label ∈ ["root", "iobj", "dep"], ∀ char ∈ label.toList, char.toNat < 128 := by
    simp
  have folded : ∀ label ∈ ["root", "iobj", "dep"], casefold label = label := by
    intro label member
    rw [ExtendsAscii.casefold_ascii label (plain label member)]
    revert label
    decide
  have listed : replacementDeprel deprel head ∈ ["root", "iobj", "dep"] := by
    unfold replacementDeprel
    split_ifs
    · simp
    · simp
    · simp
  have known : ∀ label ∈ ["root", "iobj", "dep"], label ≠ "" ∧
      ¬ ("<".isPrefixOf label ∧ label.endsWith ">") ∧ deprelHead label ∈ udDeprels ∧
        label ≠ "iob" := by decide +kernel
  have isFolded := folded _ listed
  rcases known _ listed with ⟨given, marked, isKnown, whole⟩
  refine ⟨given, marked, ?_, ?_, ?_⟩
  · rw [isFolded]
    exact isKnown
  · rw [isFolded]
    unfold replacementDeprel
    split_ifs with root truncated
    · exact iff_of_true rfl root
    · exact iff_of_false (by decide) root
    · exact iff_of_false (by decide) root
  · rw [isFolded]
    exact whole

/-- The repaired label is accepted. -/
theorem repairDeprel_accepted : AcceptedDeprel (repairDeprel index text head word).1 head := by
  by_cases accepted : AcceptedDeprel (word.deprel.getD "") head
  · rw [repairDeprel_of_accepted accepted]
    exact accepted
  · rw [repairDeprel_of_not_accepted accepted]
    exact replacementDeprel_accepted _ _

theorem udPos_ascii : ∀ upos ∈ udPos, upper upos = upos := by
  have plain : ∀ upos ∈ udPos, ∀ char ∈ upos.toList, char.toNat < 128 := by simp [udPos]
  intro upos member
  rw [ExtendsAscii.upper_ascii upos (plain upos member)]
  revert upos
  decide

omit [ExtendsAscii] in
theorem repairUpos_mem : (repairUpos index text word).1 ∈ udPos := by
  unfold repairUpos
  dsimp only
  split
  · rename_i known
    exact known
  · simp [udPos]

omit [ExtendsAscii] in
/-- The fallback is a word of the sentence. -/
theorem normalizedRootId_le (rawWords : List StanzaWord) :
    normalizedRootId rawWords ≤ rawWords.length := by
  unfold normalizedRootId
  split
  · rename_i place found
    rcases List.findIdx?_eq_some_iff_getElem.mp found with ⟨inside, _⟩
    exact inside
  · split
    · exact Nat.zero_le _
    · rename_i nonempty
      rw [List.isEmpty_iff] at nonempty
      exact List.length_pos_iff.mpr nonempty

omit [PythonText] [ExtendsAscii] in
theorem repairHead_le (inRange : rootId ≤ count) :
    (repairHead count rootId index text word).1 ≤ count := by
  unfold repairHead
  split
  · rename_i head valid
    rw [Option.filter_eq_some_iff, decide_eq_true_eq] at valid
    dsimp only
    omega
  · dsimp only
    split_ifs
    · exact Nat.zero_le _
    · exact inRange

omit [ExtendsAscii] in
theorem repairLemma_nonempty (given : text ≠ "") : (repairLemma index text word).1 ≠ "" := by
  unfold repairLemma
  dsimp only
  split
  · exact given
  · rename_i kept
    exact fun empty => kept (Or.inl empty)

omit [PythonText] [ExtendsAscii] in
theorem repairText_text : (repairText index word).1 = word.text.getD "" := by
  unfold repairText
  dsimp only
  split
  · rfl
  · rfl

omit [ExtendsAscii] in
/-- A lemma that is kept is neither empty nor bare punctuation. -/
theorem repairLemma_of_given {other : StanzaWord} {lemmaText : String}
    (given : other.lemmaText = some lemmaText) (nonempty : lemmaText = "" → text = "")
    (kept : lemmaText ≠ text → text.toList.any isAlnum → lemmaText.toList.any isAlnum) :
    (repairLemma index text other).1 = lemmaText := by
  unfold repairLemma
  rw [given]
  dsimp only [Option.getD_some]
  split
  · rename_i missing
    rcases missing with empty | ⟨_, letters, noLetters⟩
    · exact (nonempty empty).trans empty.symm
    · by_contra differ
      exact noLetters (kept (Ne.symm differ) letters)
  · rfl

omit [ExtendsAscii] in
theorem repairLemma_kept (differ : (repairLemma index text word).1 ≠ text)
    (letters : text.toList.any isAlnum) :
    (repairLemma index text word).1.toList.any isAlnum := by
  unfold repairLemma at differ ⊢
  dsimp only at differ ⊢
  split
  · rename_i replaced
    rw [if_pos replaced] at differ
    exact absurd rfl differ
  · rename_i kept
    by_contra noLetters
    apply kept
    right
    refine ⟨?_, letters, noLetters⟩
    rintro rfl
    cases letters

theorem repairUpos_again {other : StanzaWord} {upos : String} (member : upos ∈ udPos)
    (given : other.upos = some upos) : repairUpos index text other = (upos, []) := by
  unfold repairUpos
  rw [given, Option.map_some, Option.getD_some, udPos_ascii upos member]
  exact if_pos member

omit [PythonText] [ExtendsAscii] in
theorem repairHead_of_valid {head : ℕ} (given : word.head = some (head : ℤ))
    (inRange : head ≤ count) : repairHead count rootId index text word = (head, []) := by
  have valid : (some (head : ℤ)).filter (fun head : ℤ => 0 ≤ head ∧ head ≤ count) =
      some (head : ℤ) := by
    rw [Option.filter_eq_some_iff, decide_eq_true_eq]
    exact ⟨rfl, by omega, by omega⟩
  unfold repairHead
  rw [given, valid]
  rfl

/-- A second repair of a word changes nothing. -/
theorem normalizeWord_again (rootId' index' : ℕ) (inRange : rootId ≤ count) :
    (normalizeWord count rootId' index' (normalizeWord count rootId index word).1.asStanzaWord).1 =
      (normalizeWord count rootId index word).1 := by
  set new := (normalizeWord count rootId index word).1 with isNew
  have text : (repairText index' new.asStanzaWord).1 = new.text := repairText_text
  have lemmaText : (repairLemma index' new.text new.asStanzaWord).1 = new.lemmaText := by
    apply repairLemma_of_given rfl
    · intro empty
      by_contra given
      exact repairLemma_nonempty given empty
    · exact repairLemma_kept
  have upos : (repairUpos index' new.text new.asStanzaWord).1 = new.upos := by
    have member : new.upos ∈ udPos := repairUpos_mem
    rw [repairUpos_again member rfl]
  have head : (repairHead count rootId' index' new.text new.asStanzaWord).1 = new.head := by
    have inside : new.head ≤ count := repairHead_le inRange
    rw [repairHead_of_valid rfl inside]
  have deprel : (repairDeprel index' new.text new.head new.asStanzaWord).1 = new.deprel := by
    have accepted : AcceptedDeprel (new.asStanzaWord.deprel.getD "") new.head :=
      repairDeprel_accepted
    rw [repairDeprel_of_accepted accepted]
    rfl
  unfold normalizeWord
  dsimp only
  rw [text, lemmaText, upos, head, deprel]
  rfl

/-- A second repair of a sentence changes no word. -/
theorem normalizeWords_again (rawWords : List StanzaWord) :
    (normalizeWords ((normalizeWords rawWords).1.map (·.asStanzaWord))).1 =
      (normalizeWords rawWords).1 := by
  apply List.ext_getElem
  · simp [normalizeWords]
  · intro place inside inFirst
    simp only [normalizeWords, List.getElem_map, List.getElem_zipIdx, List.length_map,
      List.length_zipIdx]
    exact normalizeWord_again _ _ (normalizedRootId_le rawWords)

end Again

section Log

variable [PythonText]

/-- An entry of the log: the word and its text, the field, its value and the one in its place. -/
abbrev LogEntry := ℕ × String × String × FieldValue × FieldValue

def AnalysisAnomaly.entry (anomaly : AnalysisAnomaly) : LogEntry :=
  (anomaly.wordIndex, anomaly.text, anomaly.field, anomaly.original, anomaly.replacement)

/-- The fields with another value after the repair, or with none. A part of speech in other
letters has the same value. -/
def replacedFields (raw : StanzaWord) (new : NormalizedWord) :
    List (String × FieldValue × FieldValue) :=
  (if raw.text ≠ some new.text ∨ new.text = "" then
      [("text", textValue raw.text, .text new.text)] else []) ++
    (if raw.lemmaText ≠ some new.lemmaText ∨ new.lemmaText = "" then
      [("lemma", textValue raw.lemmaText, .text new.lemmaText)] else []) ++
    (if raw.upos.map upper ≠ some new.upos then
      [("upos", textValue raw.upos, .text new.upos)] else []) ++
    (if raw.head ≠ some (new.head : ℤ) then
      [("head", numberValue raw.head, .number new.head)] else []) ++
    (if raw.deprel ≠ some new.deprel then
      [("deprel", textValue raw.deprel, .text new.deprel)] else []) ++
    (if raw.id ≠ some new.id then [("id", .missing, .number new.id)] else [])

variable {index head count rootId : ℕ} {text : String} {word : StanzaWord}

omit [PythonText] in
theorem repairText_log : (repairText index word).2.map AnalysisAnomaly.entry =
    (if word.text ≠ some (repairText index word).1 ∨ (repairText index word).1 = "" then
      [("text", textValue word.text, FieldValue.text (repairText index word).1)] else []).map
        fun field => (index, (repairText index word).1, field) := by
  rw [repairText_text]
  unfold repairText
  cases given : word.text with
  | none => simp [AnalysisAnomaly.entry]
  | some given' =>
      by_cases empty : given' = ""
      · simp [AnalysisAnomaly.entry, empty]
      · simp [empty]

theorem repairLemma_log : (repairLemma index text word).2.map AnalysisAnomaly.entry =
    (if word.lemmaText ≠ some (repairLemma index text word).1 ∨
        (repairLemma index text word).1 = "" then
      [("lemma", textValue word.lemmaText, FieldValue.text (repairLemma index text word).1)]
      else []).map fun field => (index, text, field) := by
  by_cases replaced : word.lemmaText.getD "" = "" ∨ (text ≠ "" ∧ text.toList.any isAlnum ∧
      ¬ (word.lemmaText.getD "").toList.any isAlnum)
  · have both : repairLemma index text word = (text, [⟨index, text, "lemma",
        textValue word.lemmaText, .text text,
        "missing lemma or punctuation-only lemma for a lexical surface"⟩]) := if_pos replaced
    have changed : word.lemmaText ≠ some text ∨ text = "" := by
      by_contra kept
      rw [not_or, not_not] at kept
      rw [kept.1, Option.getD_some] at replaced
      rcases replaced with empty | ⟨_, letters, noLetters⟩
      · exact kept.2 empty
      · exact noLetters letters
    rw [both]
    dsimp only
    rw [if_pos changed]
    rfl
  · have both : repairLemma index text word = (word.lemmaText.getD "", []) := if_neg replaced
    rw [both]
    rw [not_or] at replaced
    have given : word.lemmaText = some (word.lemmaText.getD "") := by
      cases given : word.lemmaText with
      | none => simp [given] at replaced
      | some lemmaText => rfl
    dsimp only
    rw [if_neg (not_or.mpr ⟨not_not.mpr given, replaced.1⟩)]
    rfl

theorem repairUpos_log : (repairUpos index text word).2.map AnalysisAnomaly.entry =
    (if word.upos.map upper ≠ some (repairUpos index text word).1 then
      [("upos", textValue word.upos, FieldValue.text (repairUpos index text word).1)]
      else []).map fun field => (index, text, field) := by
  have empty : "" ∉ udPos := by simp [udPos]
  by_cases known : (word.upos.map upper).getD "" ∈ udPos
  · have both : repairUpos index text word = ((word.upos.map upper).getD "", []) := if_pos known
    have given : word.upos.map upper = some ((word.upos.map upper).getD "") := by
      cases given : word.upos with
      | none => exact absurd (by simpa [given] using known) empty
      | some upos => rfl
    rw [both]
    dsimp only
    rw [if_neg (not_not.mpr given)]
    rfl
  · have both : repairUpos index text word = ("X", [⟨index, text, "upos", textValue word.upos,
        .text "X", "missing or unknown universal POS"⟩]) := if_neg known
    have changed : word.upos.map upper ≠ some "X" := by
      intro same
      rw [same] at known
      exact known (by simp [udPos])
    rw [both]
    dsimp only
    rw [if_pos changed]
    rfl

omit [PythonText] in
theorem repairHead_log (inRange : rootId ≤ count) :
    (repairHead count rootId index text word).2.map AnalysisAnomaly.entry =
    (if word.head ≠ some ((repairHead count rootId index text word).1 : ℤ) then
      [("head", numberValue word.head,
        FieldValue.number (repairHead count rootId index text word).1)]
      else []).map fun field => (index, text, field) := by
  cases valid : word.head.filter (fun head : ℤ => 0 ≤ head ∧ head ≤ count) with
  | some head =>
      have both : repairHead count rootId index text word = (head.toNat, []) := by
        rw [repairHead, valid]
      rw [Option.filter_eq_some_iff, decide_eq_true_eq] at valid
      have same : word.head = some ((head.toNat : ℕ) : ℤ) := by
        rw [valid.1, Int.toNat_of_nonneg valid.2.1]
      rw [both]
      dsimp only
      rw [if_neg (not_not.mpr same)]
      rfl
  | none =>
      have both : repairHead count rootId index text word =
          (if index = rootId then 0 else rootId, [⟨index, text, "head", numberValue word.head,
            .number ((if index = rootId then 0 else rootId : ℕ) : ℤ),
            "missing or out-of-range dependency head"⟩]) := by
        rw [repairHead, valid]
      have inside : (repairHead count rootId index text word).1 ≤ count := repairHead_le inRange
      have changed : word.head ≠ some ((repairHead count rootId index text word).1 : ℤ) := by
        intro same
        rw [same, Option.filter_eq_none_iff] at valid
        apply valid _ rfl
        rw [decide_eq_true_eq]
        omega
      rw [if_pos changed, both]
      rfl

theorem repairDeprel_log [ExtendsAscii] :
    (repairDeprel index text head word).2.map AnalysisAnomaly.entry =
    (if word.deprel ≠ some (repairDeprel index text head word).1 then
      [("deprel", textValue word.deprel, FieldValue.text (repairDeprel index text head word).1)]
      else []).map fun field => (index, text, field) := by
  by_cases accepted : AcceptedDeprel (word.deprel.getD "") head
  · rw [repairDeprel_of_accepted accepted]
    have same : word.deprel = some (word.deprel.getD "") := by
      cases given : word.deprel with
      | none => exact absurd (by simp [given]) accepted.given
      | some deprel => rfl
    dsimp only
    rw [if_neg (not_not.mpr same)]
    rfl
  · rw [repairDeprel_of_not_accepted accepted]
    have changed : word.deprel ≠ some (replacementDeprel (word.deprel.getD "") head) := by
      intro same
      apply accepted
      have whole : word.deprel.getD "" = replacementDeprel (word.deprel.getD "") head := by
        conv_lhs => rw [same]
        rfl
      rw [whole]
      exact replacementDeprel_accepted _ _
    dsimp only
    rw [if_pos changed]
    rfl

omit [PythonText] in
theorem repairId_log : (repairId index text word).2.map AnalysisAnomaly.entry =
    (if word.id ≠ some (repairId index text word).1 then
      [("id", FieldValue.missing, FieldValue.number (repairId index text word).1)]
      else []).map fun field => (index, text, field) := by
  unfold repairId
  cases given : word.id with
  | none => simp [AnalysisAnomaly.entry]
  | some id => simp

/-- The log has an entry for each field that is replaced. -/
theorem normalizeWord_log [ExtendsAscii] (inRange : rootId ≤ count) :
    (normalizeWord count rootId index word).2.map AnalysisAnomaly.entry =
      (replacedFields word (normalizeWord count rootId index word).1).map fun field =>
        (index, (normalizeWord count rootId index word).1.text, field) := by
  unfold normalizeWord replacedFields
  dsimp only
  simp only [List.map_append]
  rw [repairText_log, repairLemma_log, repairUpos_log, repairHead_log inRange, repairDeprel_log,
    repairId_log]

/-- The log of a sentence is that of its words. -/
theorem normalizeWords_log [ExtendsAscii] (rawWords : List StanzaWord) :
    (normalizeWords rawWords).2.map AnalysisAnomaly.entry =
      ((rawWords.zip (normalizeWords rawWords).1).zipIdx 1).flatMap fun ((raw, new), index) =>
        (replacedFields raw new).map fun field => (index, new.text, field) := by
  have places : (rawWords.zip (normalizeWords rawWords).1).zipIdx 1 =
      (rawWords.zipIdx 1).map fun item => ((item.1, (normalizeWord rawWords.length
        (normalizedRootId rawWords) item.2 item.1).1), item.2) := by
    apply List.ext_getElem
    · simp [normalizeWords]
    · intro place _ _
      simp [normalizeWords]
  rw [places, List.flatMap_map, normalizeWords, List.map_flatMap, List.flatMap_map]
  exact List.flatMap_congr fun item _ => normalizeWord_log (normalizedRootId_le rawWords)

end Log

section Roots

/-- Every head is in the sentence, and one is 0, of a word that is labelled as root. The heads of
a tree are like this. -/
structure OneRoot (words : List StanzaWord) (root : ℕ) : Prop where
  inRange : ∀ word ∈ words, ∃ head : ℕ, word.head = some (head : ℤ) ∧ head ≤ words.length
  isRoot : ∃ inside : root < words.length, words[root].head = some 0 ∧
    words[root].deprel.any fun deprel => decide (IsRootLabel deprel)
  only : ∀ (place : ℕ) (inside : place < words.length), words[place].head = some 0 → place = root

/-- A head that the repair does not accept. -/
def LostHead (count : ℕ) (word : StanzaWord) : Prop :=
  ∀ head : ℕ, word.head = some (head : ℤ) → count < head

/-- Some words have lost the value of their head. -/
def LosesHeads (whole rawWords : List StanzaWord) : Prop :=
  List.Forall₂ (fun word raw => raw = word ∨
    raw = { word with head := raw.head } ∧ LostHead whole.length raw) whole rawWords

/-- One place of a list has the property. -/
theorem length_filter_of_place {α : Type} {xs : List α} {p : α → Bool} {place : ℕ}
    (inside : place < xs.length)
    (only : ∀ (other : ℕ) (otherInside : other < xs.length), p xs[other] ↔ other = place) :
    (xs.filter p).length = 1 := by
  induction xs generalizing place with
  | nil => cases inside
  | cons x xs ih =>
      have first := only 0 (Nat.succ_pos _)
      rw [List.getElem_cons_zero] at first
      cases place with
      | zero =>
          have noOther : xs.filter p = [] := by
            rw [List.filter_eq_nil_iff]
            intro y isY holds
            rcases List.getElem_of_mem isY with ⟨other, otherInside, rfl⟩
            have later := (only (other + 1) (Nat.succ_lt_succ otherInside)).mp holds
            omega
          rw [List.filter_cons_of_pos (first.mpr rfl), noOther]
          rfl
      | succ place =>
          have notFirst : ¬ p x := fun holds => by
            have same := first.mp holds
            omega
          rw [List.filter_cons_of_neg notFirst]
          apply ih (Nat.lt_of_succ_lt_succ inside)
          intro other otherInside
          have later := only (other + 1) (Nat.succ_lt_succ otherInside)
          rw [List.getElem_cons_succ] at later
          rw [later]
          omega

theorem repairHead_of_lost {count rootId index : ℕ} {text : String} {word : StanzaWord}
    (lost : LostHead count word) : (repairHead count rootId index text word).1 =
      if index = rootId then 0 else rootId := by
  have refused : word.head.filter (fun head : ℤ => 0 ≤ head ∧ head ≤ count) = none := by
    rw [Option.filter_eq_none_iff]
    intro head given valid
    rw [decide_eq_true_eq] at valid
    have tooFar := lost head.toNat (by rw [given, Int.toNat_of_nonneg valid.1])
    omega
  rw [repairHead, refused]

variable {whole rawWords : List StanzaWord} {root center : ℕ}

/-- Every place has lost its head, or has a head in the sentence that is 0 only at the root. -/
def ZeroOnlyAt (rawWords : List StanzaWord) (root : ℕ) : Prop :=
  ∀ (place : ℕ) (inside : place < rawWords.length),
    LostHead rawWords.length rawWords[place] ∨
      ∃ head : ℕ, rawWords[place].head = some (head : ℤ) ∧ head ≤ rawWords.length ∧
        (head = 0 ↔ place = root)

theorem LosesHeads.places (loses : LosesHeads whole rawWords) (oneRoot : OneRoot whole root) :
    ∃ inside : root < rawWords.length,
      (rawWords[root].deprel.any fun deprel => decide (IsRootLabel deprel)) ∧
        ZeroOnlyAt rawWords root := by
  rcases List.forall₂_iff_get.mp loses with ⟨length, places⟩
  rcases oneRoot.isRoot with ⟨rootInside, rootHead, label⟩
  refine ⟨length ▸ rootInside, ?_, fun place inside => ?_⟩
  · have same := places root rootInside (length ▸ rootInside)
    simp only [List.get_eq_getElem] at same
    rcases same with kept | ⟨lost, _⟩
    · rwa [kept]
    · rw [lost]
      exact label
  · have inWhole : place < whole.length := length ▸ inside
    have same := places place inWhole inside
    simp only [List.get_eq_getElem] at same
    rcases same with kept | ⟨_, lost⟩
    · right
      rcases oneRoot.inRange whole[place] (List.getElem_mem _) with ⟨head, given, inRange⟩
      refine ⟨head, kept ▸ given, length ▸ inRange, fun zero => ?_, fun same => ?_⟩
      · apply oneRoot.only place inWhole
        rw [given, zero]
        rfl
      · subst same
        rw [rootHead] at given
        simpa using given.symm
    · exact Or.inl (length ▸ lost)

variable [PythonText]

/-- One word has head 0 if the fallback is the one place that may have it. -/
theorem rootWords_length [LawfulPythonText] (inside : center < rawWords.length)
    (rootId : normalizedRootId rawWords = center + 1) (zeroOnly : ZeroOnlyAt rawWords center) :
    (rootWords (normalizeWords rawWords).1).length = 1 := by
  have length : (normalizeWords rawWords).1.length = rawWords.length := by
    simp [normalizeWords]
  have heads : ∀ (place : ℕ) (inside : place < (normalizeWords rawWords).1.length),
      ((normalizeWords rawWords).1[place].head = 0 ↔ place = center) ∧
        (IsRootLabel (normalizeWords rawWords).1[place].deprel ↔
          (normalizeWords rawWords).1[place].head = 0) := by
    intro place placeInside
    have inRaw : place < rawWords.length := length ▸ placeInside
    have isWord : (normalizeWords rawWords).1[place] = (normalizeWord rawWords.length
        (normalizedRootId rawWords) (1 + place) rawWords[place]).1 := by
      simp [normalizeWords]
    rw [isWord]
    refine ⟨?_, repairDeprel_root⟩
    unfold normalizeWord
    dsimp only
    rcases zeroOnly place inRaw with lost | ⟨head, given, inRange, zero⟩
    · rw [repairHead_of_lost lost]
      by_cases same : place = center
      · rw [if_pos (by omega)]
        exact iff_of_true rfl same
      · rw [if_neg (by omega)]
        exact iff_of_false (by omega) same
    · rw [repairHead_of_valid given inRange]
      exact zero
  apply length_filter_of_place (length.symm ▸ inside : center < _)
  intro place placeInside
  rcases heads place placeInside with ⟨zero, label⟩
  rw [decide_eq_true_eq, LawfulPythonText.lower_eq_root, label, and_self, zero]

/-- The first place with head 0 that is labelled as root, or else the first place. -/
theorem normalizedRootId_of_zeroOnlyAt [LawfulPythonText] (inside : root < rawWords.length)
    (label : rawWords[root].deprel.any fun deprel => decide (IsRootLabel deprel))
    (zeroOnly : ZeroOnlyAt rawWords root) :
    normalizedRootId rawWords = if rawWords[root].head = some 0 then root + 1 else 1 := by
  have onlyRoot : ∀ (place : ℕ) (inside : place < rawWords.length),
      rawWords[place].head = some 0 → place = root := by
    intro place placeInside isZero
    rcases zeroOnly place placeInside with lost | ⟨head, given, _, zero⟩
    · exact absurd (lost 0 isZero) (Nat.not_lt_zero _)
    · rw [isZero] at given
      apply zero.mp
      simpa using given.symm
  have isLabelled : rawWords[root].deprel.map lower = some "root" := by
    cases given : rawWords[root].deprel with
    | none => simp [given] at label
    | some deprel =>
        rw [given, Option.any_some, decide_eq_true_eq] at label
        rw [Option.map_some, (LawfulPythonText.lower_eq_root deprel).mpr label]
  unfold normalizedRootId
  by_cases kept : rawWords[root].head = some 0
  · rw [if_pos kept]
    have found : rawWords.findIdx? (fun word => word.head = some 0 ∧
        word.deprel.map lower = some "root") = some root := by
      rw [List.findIdx?_eq_some_iff_getElem]
      refine ⟨inside, by simp [kept, isLabelled], fun place before => ?_⟩
      simp only [decide_eq_true_eq]
      rintro ⟨isZero, _⟩
      have same := onlyRoot place (before.trans inside) isZero
      omega
    rw [found]
  · rw [if_neg kept]
    have absent : rawWords.findIdx? (fun word => word.head = some 0 ∧
        word.deprel.map lower = some "root") = none := by
      rw [List.findIdx?_eq_none_iff]
      intro word isWord
      rw [decide_eq_false_iff_not]
      rintro ⟨isZero, _⟩
      rcases List.getElem_of_mem isWord with ⟨place, placeInside, rfl⟩
      have same := onlyRoot place placeInside isZero
      subst same
      exact kept isZero
    rw [absent]
    dsimp only
    rw [if_neg]
    intro empty
    rw [List.isEmpty_iff.mp empty] at inside
    cases inside

/-- The root is found, or the fallback has lost its head. -/
theorem validateRootStructure_of_losesHeads [LawfulPythonText] (oneRoot : OneRoot whole root)
    (loses : LosesHeads whole rawWords)
    (found : (∃ raw ∈ rawWords, raw.head = some 0) ∨
      ∃ raw, rawWords.head? = some raw ∧ LostHead rawWords.length raw) :
    validateRootStructure (normalizeWords rawWords).1 = .ok () := by
  suffices one : (rootWords (normalizeWords rawWords).1).length = 1 by
    unfold validateRootStructure
    exact if_neg fun refused => refused.2 one
  rcases loses.places oneRoot with ⟨inside, label, zeroOnly⟩
  have rootId := normalizedRootId_of_zeroOnlyAt inside label zeroOnly
  by_cases kept : rawWords[root].head = some 0
  · rw [if_pos kept] at rootId
    exact rootWords_length inside rootId zeroOnly
  · have noZero : ∀ (place : ℕ) (placeInside : place < rawWords.length),
        rawWords[place].head ≠ some 0 := by
      intro place placeInside isZero
      rcases zeroOnly place placeInside with lost | ⟨head, given, _, zero⟩
      · exact absurd (lost 0 isZero) (Nat.not_lt_zero _)
      · have same : place = root := zero.mp (by simpa [isZero] using given.symm)
        subst same
        exact kept isZero
    rcases found with ⟨raw, isRaw, isZero⟩ | ⟨first, isFirst, lost⟩
    · rcases List.getElem_of_mem isRaw with ⟨place, placeInside, rfl⟩
      exact absurd isZero (noZero place placeInside)
    · rw [if_neg kept] at rootId
      apply rootWords_length (Nat.zero_lt_of_lt inside) rootId
      intro place placeInside
      rcases zeroOnly place placeInside with lostToo | ⟨head, given, inRange, _⟩
      · exact Or.inl lostToo
      · by_cases start : place = 0
        · subst start
          rw [List.head?_eq_getElem?, List.getElem?_eq_getElem placeInside] at isFirst
          cases isFirst
          exact Or.inl lost
        · refine Or.inr ⟨head, given, inRange, iff_of_false (fun zero => ?_) start⟩
          rw [zero] at given
          exact noZero place placeInside given

end Roots

section Usable

variable [PythonText]

/-- A word that can be rendered. -/
structure Usable (count : ℕ) (word : NormalizedWord) : Prop where
  upos : word.upos ∈ udPos
  lemmaText : word.text ≠ "" → word.lemmaText ≠ ""
  head : word.head ≤ count
  root : lower word.deprel = "root" ↔ word.head = 0

theorem normalizeWords_usable [LawfulPythonText] (rawWords : List StanzaWord) :
    ∀ word ∈ (normalizeWords rawWords).1, Usable rawWords.length word := by
  intro word member
  rcases List.mem_map.mp member with ⟨repaired, isRepaired, rfl⟩
  rcases List.mem_map.mp isRepaired with ⟨⟨raw, index⟩, _, rfl⟩
  constructor
  · exact repairUpos_mem
  · exact repairLemma_nonempty
  · exact repairHead_le (normalizedRootId_le rawWords)
  · rw [LawfulPythonText.lower_eq_root]
    exact repairDeprel_root

theorem normalizeWords_text (rawWords : List StanzaWord) :
    (normalizeWords rawWords).1.map (·.text) = rawWords.map (·.text.getD "") := by
  apply List.ext_getElem
  · simp [normalizeWords]
  · intro place _ _
    simp [normalizeWords, normalizeWord, repairText_text]

/-- The repair makes an analysis usable, says what it replaced, and is done after one turn; the
root is left where it was found. -/
theorem normalizeWords_repairs [LawfulPythonText] [ExtendsAscii] (rawWords : List StanzaWord) :
    (normalizeWords rawWords).1.map (·.text) = rawWords.map (·.text.getD "") ∧
      (∀ word ∈ (normalizeWords rawWords).1, Usable rawWords.length word) ∧
      (normalizeWords rawWords).2.map AnalysisAnomaly.entry =
        ((rawWords.zip (normalizeWords rawWords).1).zipIdx 1).flatMap (fun ((raw, new), index) =>
          (replacedFields raw new).map fun field => (index, new.text, field)) ∧
      (normalizeWords ((normalizeWords rawWords).1.map (·.asStanzaWord))).1 =
        (normalizeWords rawWords).1 ∧
      ∀ whole root, OneRoot whole root → LosesHeads whole rawWords →
        ((∃ raw ∈ rawWords, raw.head = some 0) ∨
          ∃ raw, rawWords.head? = some raw ∧ LostHead rawWords.length raw) →
        validateRootStructure (normalizeWords rawWords).1 = .ok () :=
  ⟨normalizeWords_text rawWords, normalizeWords_usable rawWords, normalizeWords_log rawWords,
    normalizeWords_again rawWords, fun _ _ => validateRootStructure_of_losesHeads⟩

end Usable

section Sentences

/-- `Dogs bark`, with the root at the end. -/
def dogsBarkRaw (upos : String) (first second : Option ℤ) : List StanzaWord :=
  [⟨some "dogs", some "dog", some upos, none, first, some "nsubj", some 1⟩,
    ⟨some "bark", some "bark", some "VERB", none, second, some "root", some 2⟩]

theorem oneRoot_dogsBark (upos : String) : OneRoot (dogsBarkRaw upos (some 2) (some 0)) 1 where
  inRange := by
    intro word member
    simp only [dogsBarkRaw, List.mem_cons, List.not_mem_nil, or_false] at member
    rcases member with rfl | rfl
    · exact ⟨2, rfl, le_rfl⟩
    · exact ⟨0, rfl, Nat.zero_le _⟩
  isRoot := ⟨by simp [dogsBarkRaw], rfl, by simp [dogsBarkRaw, isRootLabel_iff]⟩
  only := by
    intro place inside zero
    simp only [dogsBarkRaw, List.length_cons, List.length_nil] at inside
    have which : place = 0 ∨ place = 1 := by omega
    rcases which with rfl | rfl
    · cases zero
    · rfl

theorem losesHeads_dogsBark (upos : String) {first second : Option ℤ}
    (firstLost : first = some 2 ∨ first = none) (secondLost : second = some 0 ∨ second = none) :
    LosesHeads (dogsBarkRaw upos (some 2) (some 0)) (dogsBarkRaw upos first second) := by
  apply List.Forall₂.cons
  · rcases firstLost with rfl | rfl
    · exact Or.inl rfl
    · exact Or.inr ⟨rfl, fun head given => nomatch given⟩
  · apply List.Forall₂.cons
    · rcases secondLost with rfl | rfl
      · exact Or.inl rfl
      · exact Or.inr ⟨rfl, fun head given => nomatch given⟩
    · exact List.Forall₂.nil

/-- The root has lost its head, and the first word keeps its own. -/
theorem dogsBark_rootless :
    (normalizeWords (dogsBarkRaw "noun" (some 2) none)).1.map (·.upos) = ["NOUN", "VERB"] ∧
      (∀ anomaly ∈ (normalizeWords (dogsBarkRaw "noun" (some 2) none)).2,
        anomaly.field ≠ "upos") ∧
      OneRoot (dogsBarkRaw "noun" (some 2) (some 0)) 1 ∧
      LosesHeads (dogsBarkRaw "noun" (some 2) (some 0)) (dogsBarkRaw "noun" (some 2) none) ∧
      validateRootStructure (normalizeWords (dogsBarkRaw "noun" (some 2) none)).1 ≠ .ok () := by
  refine ⟨by decide +kernel, by decide +kernel, oneRoot_dogsBark "noun",
    losesHeads_dogsBark "noun" (Or.inl rfl) (Or.inr rfl), fun accepted => ?_⟩
  have noRoots : (rootWords (normalizeWords (dogsBarkRaw "noun" (some 2) none)).1).length = 0 := by
    decide +kernel
  unfold validateRootStructure at accepted
  dsimp only at accepted
  rw [noRoots, if_pos ⟨by decide, by decide⟩] at accepted
  cases accepted

theorem dogsBark_repaired :
    validateRootStructure (normalizeWords (dogsBarkRaw "noun" none (some 0))).1 = .ok () :=
  (normalizeWords_repairs (dogsBarkRaw "noun" none (some 0))).2.2.2.2 _ 1
    (oneRoot_dogsBark "noun") (losesHeads_dogsBark "noun" (Or.inr rfl) (Or.inl rfl))
    (Or.inl ⟨_, List.mem_cons_of_mem _ List.mem_cons_self, rfl⟩)

end Sentences

end Batchalign.Morphosyntax
