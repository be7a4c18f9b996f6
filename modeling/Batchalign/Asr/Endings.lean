import Batchalign.Asr.Unmarked

/-!
# How turns end

`retokenize` ends an utterance at every word that is an ending mark or ends in one. Not each of
the marks becomes a terminator of CHAT: the list of ending punctuation has two that are none, and
the right-to-left comma and semicolon become separators. What stands in front of a glued mark can
be a terminator itself.
-/

namespace Batchalign.Asr

section Marks

/-- The characters that end a sentence, glued to a word as well. -/
def endingMarks : List Char := ['.', '?', '!', '؟', '۔']

/-- Ending punctuation that CHAT does not allow, or that becomes a separator. -/
def falseEndings : List String := ["...", "(.)", "،", "؛"]

/-- A text whose ending mark, if it has one, is made into a terminator of CHAT, and which is not
a terminator with one more mark. -/
structure EndsLegally (text : String) : Prop where
  whole : text ∉ falseEndings
  comma : text.toList.getLast? ≠ some '،'
  semicolon : text.toList.getLast? ≠ some '؛'
  once : text.toList.getLast?.any endingMarks.contains = true →
    String.ofList text.toList.dropLast ∉ chatTerminators

instance (text : String) : Decidable (EndsLegally text) :=
  decidable_of_iff (text ∉ falseEndings ∧ text.toList.getLast? ≠ some '،' ∧
      text.toList.getLast? ≠ some '؛' ∧ (text.toList.getLast?.any endingMarks.contains = true →
        String.ofList text.toList.dropLast ∉ chatTerminators))
    ⟨fun ⟨whole, comma, semicolon, once⟩ => ⟨whole, comma, semicolon, once⟩,
      fun legal => ⟨legal.whole, legal.comma, legal.semicolon, legal.once⟩⟩

/-- The ending marks that become terminators. -/
def trueEndings : List String := chatTerminators ++ ["؟", "۔"]

theorem isEndingPunct_iff {text : String} :
    isEndingPunct text = true ↔ text ∈ trueEndings ∨ text ∈ falseEndings := by
  have known : ∀ known ∈ endingPunct ++ rtlPunct.map Prod.fst,
      known ∈ trueEndings ∨ known ∈ falseEndings := by
    decide
  have ends : ∀ known ∈ trueEndings ++ falseEndings,
      known ∈ endingPunct ++ rtlPunct.map Prod.fst := by
    decide
  rw [isEndingPunct, Bool.or_eq_true, List.contains_iff_mem, List.contains_iff_mem,
    ← List.mem_append]
  exact ⟨known text, fun ending => ends text (List.mem_append.mpr ending)⟩

theorem normalizePunct_legal {text : String} (isTrue : text ∈ trueEndings) :
    normalizePunct text ∈ chatTerminators := by
  simp only [trueEndings, chatTerminators, List.cons_append, List.nil_append, List.mem_cons,
    List.not_mem_nil, or_false] at isTrue
  rcases isTrue with rfl | rfl | rfl | rfl | rfl | rfl | rfl | rfl | rfl | rfl | rfl | rfl |
    rfl | rfl | rfl <;> decide

theorem normalizePunct_illegal {text : String} (isFalse : text ∈ falseEndings) :
    normalizePunct text ∉ chatTerminators := by
  simp only [falseEndings, List.mem_cons, List.not_mem_nil, or_false] at isFalse
  rcases isFalse with rfl | rfl | rfl | rfl <;> decide

theorem getLast?_trueEnding {text : String} (isTrue : text ∈ trueEndings) :
    ∃ mark ∈ endingMarks, text.toList.getLast? = some mark := by
  have known : ∀ known ∈ trueEndings,
      ∃ mark ∈ endingMarks, known.toList.getLast? = some mark := by
    simp [trueEndings, chatTerminators, endingMarks]
  exact known text isTrue

/-- No terminator is another one with a mark more. -/
theorem dropLast_trueEnding {text : String} (isTrue : text ∈ trueEndings) :
    String.ofList text.toList.dropLast ∉ chatTerminators := by
  simp only [trueEndings, chatTerminators, List.cons_append, List.nil_append, List.mem_cons,
    List.not_mem_nil, or_false] at isTrue
  rcases isTrue with rfl | rfl | rfl | rfl | rfl | rfl | rfl | rfl | rfl | rfl | rfl | rfl |
    rfl | rfl | rfl <;> decide

theorem endsLegally_of_trueEnding {text : String} (isTrue : text ∈ trueEndings) :
    EndsLegally text := by
  rcases getLast?_trueEnding isTrue with ⟨mark, inMarks, isLast⟩
  constructor
  · have apart : ∀ known ∈ trueEndings, known ∉ falseEndings := by decide
    exact apart text isTrue
  · rw [isLast]
    rintro ⟨⟩
    exact absurd inMarks (by decide)
  · rw [isLast]
    rintro ⟨⟩
    exact absurd inMarks (by decide)
  · exact fun _ => dropLast_trueEnding isTrue

/-- A whole mark is made into a terminator exactly if it ends legally. -/
theorem whole_legal_iff {text : String} (ending : isEndingPunct text = true) :
    normalizePunct text ∈ chatTerminators ↔ EndsLegally text := by
  rcases isEndingPunct_iff.mp ending with isTrue | isFalse
  · exact iff_of_true (normalizePunct_legal isTrue) (endsLegally_of_trueEnding isTrue)
  · exact iff_of_false (normalizePunct_illegal isFalse) fun ends => ends.whole isFalse

/-- The marks of one character. -/
theorem endingMark_cases {mark : Char} (ending : isEndingPunct (String.singleton mark) = true) :
    mark ∈ endingMarks ∧ String.singleton mark ∈ trueEndings ∨
      (mark = '،' ∨ mark = '؛') ∧ String.singleton mark ∈ falseEndings := by
  have falseSingle : ∀ known ∈ falseEndings, known.toList = [mark] → mark = '،' ∨ mark = '؛' := by
    simp [falseEndings]
    grind
  rcases isEndingPunct_iff.mp ending with isTrue | isFalse
  · refine .inl ⟨?_, isTrue⟩
    rcases getLast?_trueEnding isTrue with ⟨c, inMarks, isLast⟩
    obtain rfl : mark = c := by simpa using isLast
    exact inMarks
  · exact .inr ⟨falseSingle _ isFalse (String.toList_singleton mark), isFalse⟩

theorem isEndingPunct_endingMark {mark : Char} (inMarks : mark ∈ endingMarks) :
    isEndingPunct (String.singleton mark) = true := by
  simp only [endingMarks, List.mem_cons, List.not_mem_nil, or_false] at inMarks
  rcases inMarks with rfl | rfl | rfl | rfl | rfl <;> decide

/-- A word that ends in a mark without being one. -/
theorem split_of_endsWithEndingPunct {text : String} (plain : isEndingPunct text = false)
    (ends : endsWithEndingPunct text = true) :
    ∃ body mark, text.toList = body ++ [mark] ∧ body ≠ [] ∧
      isEndingPunct (String.singleton mark) = true := by
  rw [endsWithEndingPunct, Option.any_eq_true] at ends
  rcases ends with ⟨mark, isLast, isMark⟩
  have whole := List.dropLast_append_getLast? mark isLast
  refine ⟨text.toList.dropLast, mark, whole.symm, ?_, isMark⟩
  intro empty
  rw [empty, List.nil_append] at whole
  rw [← String.ofList_toList (s := text), ← whole] at plain
  exact absurd isMark (Bool.eq_false_iff.mp plain)

/-- A glued mark is made into a terminator behind a word that is none, exactly if the whole ends
legally. -/
theorem glued_legal_iff {text : String} {body : List Char} {mark : Char}
    (plain : isEndingPunct text = false) (whole : text.toList = body ++ [mark])
    (isMark : isEndingPunct (String.singleton mark) = true) :
    normalizePunct (String.singleton mark) ∈ chatTerminators ∧
        String.ofList body ∉ chatTerminators ↔ EndsLegally text := by
  have isLast : text.toList.getLast? = some mark := by
    rw [whole, List.getLast?_concat]
  rcases endingMark_cases isMark with ⟨inMarks, isTrue⟩ | ⟨separator, isFalse⟩
  · constructor
    · rintro ⟨_, notTerminator⟩
      constructor
      · intro inFalse
        exact Bool.eq_false_iff.mp plain (isEndingPunct_iff.mpr (.inr inFalse))
      · rw [isLast]
        rintro ⟨⟩
        exact absurd inMarks (by decide)
      · rw [isLast]
        rintro ⟨⟩
        exact absurd inMarks (by decide)
      · intro _
        rw [whole, List.dropLast_concat]
        exact notTerminator
    · intro ends
      have once := ends.once
      rw [isLast, Option.any_some, whole, List.dropLast_concat] at once
      exact ⟨normalizePunct_legal isTrue, once (List.contains_iff_mem.mpr inMarks)⟩
  · constructor
    · rintro ⟨legal, _⟩
      exact absurd legal (normalizePunct_illegal isFalse)
    · intro ends
      rcases separator with rfl | rfl
      · exact absurd isLast ends.comma
      · exact absurd isLast ends.semicolon

theorem endsLegally_of_plain {text : String} (plain : isEndingPunct text = false)
    (noMark : endsWithEndingPunct text = false) : EndsLegally text := by
  have other : ∀ mark, isEndingPunct (String.singleton mark) = true →
      text.toList.getLast? ≠ some mark := by
    intro mark isMark isLast
    rw [endsWithEndingPunct, isLast, Option.any_some] at noMark
    exact Bool.eq_false_iff.mp noMark isMark
  constructor
  · intro inFalse
    exact Bool.eq_false_iff.mp plain (isEndingPunct_iff.mpr (.inr inFalse))
  · exact other _ (by decide)
  · exact other _ (by decide)
  · intro glued
    rcases (Option.any_eq_true _ _).mp glued with ⟨mark, isLast, inMarks⟩
    exact absurd isLast
      (other mark (isEndingPunct_endingMark (List.contains_iff_mem.mp inMarks)))

end Marks

section Utterances

variable [ChatGrammar] {speaker : ℕ} {buf words : List AsrWord}

/-- The terminators are the closed set of CHAT. -/
def ClosedTerminators : Prop :=
  ∀ text, ChatGrammar.isChatTerminator text = true ↔ text ∈ chatTerminators

/-- A terminator stands at the end, and nowhere else. -/
def EndsWell (words : List AsrWord) : Prop :=
  ∃ init last, words = init ++ [last] ∧ ChatGrammar.isChatTerminator last.text = true ∧
    ∀ word ∈ init, ChatGrammar.isChatTerminator word.text = false

/-- A word as it was said. -/
def said (word : AsrWord) : String × Option ℤ × Option ℤ := (word.text, word.startMs, word.endMs)

/-- What is said in words that may be terminators. -/
def saidWords (words : List AsrWord) : List (String × Option ℤ × Option ℤ) :=
  (words.filter fun word => ! ChatGrammar.isChatTerminator word.text).map said

/-- What is said in a word that may be an ending mark or end in one: nothing in a mark, and of a
word with a glued mark the part in front of it. -/
def saidInput (word : AsrWord) : Option (String × Option ℤ × Option ℤ) :=
  if ChatGrammar.isChatTerminator (normalizePunct word.text) then none
  else if word.text.toList.getLast?.any fun mark =>
      ChatGrammar.isChatTerminator (normalizePunct (String.singleton mark)) then
    some (String.ofList word.text.toList.dropLast, word.startMs, word.endMs)
  else some (said word)

theorem endsWell_concat {init : List AsrWord} {last : AsrWord} :
    EndsWell (init ++ [last]) ↔ ChatGrammar.isChatTerminator last.text = true ∧
      ∀ word ∈ init, ChatGrammar.isChatTerminator word.text = false := by
  constructor
  · rintro ⟨front, final, same, ends⟩
    rcases List.append_inj' same rfl with ⟨rfl, sameLast⟩
    rw [(List.cons.inj sameLast).1]
    exact ends
  · exact fun ends => ⟨init, last, rfl, ends⟩

/-- An utterance of plain words that ends in a mark. -/
theorem flushRemaining_endsWell (closed : ClosedTerminators)
    (plain : ∀ word ∈ buf, ChatGrammar.isChatTerminator word.text = false)
    {utterance : Utterance} (member : utterance ∈ flushRemaining speaker buf) :
    EndsWell utterance.words := by
  rw [flushRemaining] at member
  split at member
  · cases member
  · rw [List.mem_singleton.mp member, endsWell_concat]
    refine ⟨(closed _).mpr (by decide), ?_⟩
    intro word kept
    exact plain word ((List.rdropWhile_prefix _ _).subset kept)

omit [ChatGrammar] in
theorem splitEnding_eq {word : AsrWord} {body : List Char} {mark : Char}
    (whole : word.text.toList = body ++ [mark]) (nonempty : body ≠ []) :
    splitEnding word = [AsrWord.new (String.ofList body) word.startMs word.endMs,
      AsrWord.new (normalizePunct (String.singleton mark)) none none] := by
  have notEmpty : (String.ofList body).isEmpty = false := by
    simpa using nonempty
  rw [splitEnding, whole, List.dropLast_concat, List.getLast?_concat, notEmpty]
  rfl

theorem notTerminator_iff (closed : ClosedTerminators) {text : String} :
    ChatGrammar.isChatTerminator text = false ↔ text ∉ chatTerminators := by
  rw [← closed, Bool.not_eq_true]

theorem plain_concat (closed : ClosedTerminators)
    (plain : ∀ word ∈ buf, ChatGrammar.isChatTerminator word.text = false) {word : AsrWord}
    (notEnding : isEndingPunct word.text = false) :
    ∀ other ∈ buf ++ [word], ChatGrammar.isChatTerminator other.text = false := by
  rw [List.forall_mem_append, List.forall_mem_singleton, notTerminator_iff closed]
  refine ⟨plain, fun isTerminator => ?_⟩
  exact Bool.eq_false_iff.mp notEnding (isEndingPunct_iff.mpr
    (.inl (List.mem_append_left _ isTerminator)))

/-- Every utterance ends well exactly if every word ends legally. -/
theorem retokenizeFrom_endsWell_iff (closed : ClosedTerminators)
    (plain : ∀ word ∈ buf, ChatGrammar.isChatTerminator word.text = false) :
    (∀ utterance ∈ retokenizeFrom speaker buf words, EndsWell utterance.words) ↔
      ∀ word ∈ words, EndsLegally (normalizeMarks word.text) := by
  induction words generalizing buf with
  | nil =>
      refine iff_of_true (fun utterance member => ?_) (by simp)
      rw [retokenizeFrom] at member
      exact flushRemaining_endsWell closed plain member
  | cons word words ih =>
      rw [retokenizeFrom, List.forall_mem_cons]
      dsimp only
      by_cases ending : isEndingPunct (normalizeMarks word.text) = true
      · rw [if_pos ending, List.forall_mem_cons, ih (by simp), endsWell_concat, closed,
          whole_legal_iff ending, and_iff_left plain]
      · have notEnding := Bool.eq_false_iff.mpr ending
        rw [if_neg ending]
        by_cases ends : endsWithEndingPunct (normalizeMarks word.text) = true
        · rcases split_of_endsWithEndingPunct notEnding ends with
            ⟨body, mark, whole, nonempty, isMark⟩
          rw [if_pos ends, List.forall_mem_cons, ih (by simp), splitEnding_eq whole nonempty,
            ← glued_legal_iff notEnding whole isMark, List.append_cons, endsWell_concat, closed,
            List.forall_mem_append, List.forall_mem_singleton, and_iff_right plain,
            notTerminator_iff closed]
          rfl
        · rw [if_neg ends, ih]
          · rw [and_iff_right (endsLegally_of_plain notEnding (Bool.eq_false_iff.mpr ends))]
          · exact plain_concat closed plain notEnding

omit [ChatGrammar] in
/-- What is neither a mark nor ends in one stays. -/
theorem normalizePunct_of_plain {text : String} (plain : isEndingPunct text = false) :
    normalizePunct text = text := by
  rw [isEndingPunct, Bool.or_eq_false_iff] at plain
  have missing : rtlPunct.lookup text = none := by
    rw [List.lookup_eq_none_iff]
    intro pair member
    rw [bne_iff_ne]
    rintro rfl
    exact Bool.eq_false_iff.mp plain.2 (List.contains_iff_mem.mpr (List.mem_map_of_mem member))
  rw [normalizePunct, missing, Option.getD_none]

theorem normalizePunct_notTerminator (closed : ClosedTerminators) {text : String}
    (plain : isEndingPunct text = false) :
    ChatGrammar.isChatTerminator (normalizePunct text) = false := by
  rw [normalizePunct_of_plain plain, notTerminator_iff closed]
  intro isTerminator
  exact Bool.eq_false_iff.mp plain (isEndingPunct_iff.mpr
    (.inl (List.mem_append_left _ isTerminator)))

theorem saidInput_whole (closed : ClosedTerminators) {word : AsrWord}
    (ending : isEndingPunct word.text = true) (legal : EndsLegally word.text) :
    saidInput word = none := by
  have isTerminator := (closed _).mpr ((whole_legal_iff ending).mpr legal)
  rw [saidInput, if_pos isTerminator]

theorem saidInput_glued (closed : ClosedTerminators) {word : AsrWord} {body : List Char}
    {mark : Char} (plain : isEndingPunct word.text = false)
    (whole : word.text.toList = body ++ [mark])
    (legal : normalizePunct (String.singleton mark) ∈ chatTerminators) :
    saidInput word = some (String.ofList body, word.startMs, word.endMs) := by
  have notTerminator := normalizePunct_notTerminator closed plain
  rw [saidInput, if_neg (by rw [notTerminator]; exact Bool.false_ne_true), whole,
    List.getLast?_concat, Option.any_some, if_pos ((closed _).mpr legal), List.dropLast_concat]

theorem saidInput_plain (closed : ClosedTerminators) {word : AsrWord}
    (plain : isEndingPunct word.text = false) (noMark : endsWithEndingPunct word.text = false) :
    saidInput word = some (said word) := by
  have notTerminator := normalizePunct_notTerminator closed plain
  have notGlued : (word.text.toList.getLast?.any fun mark =>
      ChatGrammar.isChatTerminator (normalizePunct (String.singleton mark))) = false := by
    rw [endsWithEndingPunct] at noMark
    cases isLast : word.text.toList.getLast? with
    | none => rfl
    | some mark =>
        rw [isLast, Option.any_some] at noMark
        exact normalizePunct_notTerminator closed noMark
  rw [saidInput, notTerminator, notGlued]
  rfl

theorem saidWords_of_plain
    (plain : ∀ word ∈ words, ChatGrammar.isChatTerminator word.text = false) :
    saidWords words = words.map said := by
  rw [saidWords, List.filter_eq_self.mpr]
  intro word member
  rw [plain word member]
  rfl

/-- A terminator at the end is not said. -/
theorem saidWords_concat {last : AsrWord}
    (plain : ∀ word ∈ words, ChatGrammar.isChatTerminator word.text = false)
    (isTerminator : ChatGrammar.isChatTerminator last.text = true) :
    saidWords (words ++ [last]) = words.map said := by
  have dropped : saidWords [last] = [] := by
    rw [saidWords, List.filter_cons_of_neg (by simp [isTerminator]), List.filter_nil, List.map_nil]
  have split : saidWords (words ++ [last]) = saidWords words ++ saidWords [last] := by
    simp only [saidWords, List.filter_append, List.map_append]
  rw [split, dropped, List.append_nil, saidWords_of_plain plain]

/-- Only separators are lost where a turn ends without a mark. -/
theorem flushRemaining_said (closed : ClosedTerminators)
    (plain : ∀ word ∈ buf, ChatGrammar.isChatTerminator word.text = false) :
    ∃ trailing : List AsrWord, (∀ word ∈ trailing, word.text ∈ morPunct) ∧
      (flushRemaining speaker buf).flatMap (saidWords ·.words) ++ trailing.map said =
        buf.map said := by
  refine ⟨buf.rtakeWhile (morPunct.contains ·.text), ?_, ?_⟩
  · intro word member
    have separator := List.mem_rtakeWhile_imp (p := fun word : AsrWord =>
      morPunct.contains word.text) member
    exact List.contains_iff_mem.mp separator
  · have whole : buf.rdropWhile (morPunct.contains ·.text) ++
        buf.rtakeWhile (morPunct.contains ·.text) = buf := by
      rw [List.rdropWhile, List.rtakeWhile, ← List.reverse_append, List.takeWhile_append_dropWhile,
        List.reverse_reverse]
    have front : (flushRemaining speaker buf).flatMap (saidWords ·.words) =
        (buf.rdropWhile (morPunct.contains ·.text)).map said := by
      rw [flushRemaining]
      split
      · rename_i empty
        rw [List.isEmpty_iff.mp empty]
        rfl
      · rw [List.flatMap_singleton]
        apply saidWords_concat
        · intro word kept
          exact plain word ((List.rdropWhile_prefix _ _).subset kept)
        · exact (closed _).mpr (by decide)
    rw [front, ← List.map_append, whole]

/-- What is said in the utterances is what is said in the words, but for separators behind the
last of them. -/
theorem retokenizeFrom_said (closed : ClosedTerminators)
    (plain : ∀ word ∈ buf, ChatGrammar.isChatTerminator word.text = false)
    (legal : ∀ word ∈ words, EndsLegally (normalizeMarks word.text)) :
    ∃ trailing : List AsrWord, (∀ word ∈ trailing, word.text ∈ morPunct) ∧
      (retokenizeFrom speaker buf words).flatMap (saidWords ·.words) ++ trailing.map said =
        buf.map said ++ (normalizedWords words).filterMap saidInput := by
  induction words generalizing buf with
  | nil =>
      rw [retokenizeFrom, normalizedWords, List.map_nil, List.filterMap_nil, List.append_nil]
      exact flushRemaining_said closed plain
  | cons word words ih =>
      rcases List.forall_mem_cons.mp legal with ⟨here, later⟩
      rw [retokenizeFrom, normalizedWords, List.map_cons, ← normalizedWords]
      dsimp only
      by_cases ending : isEndingPunct (normalizeMarks word.text) = true
      · rcases @ih [] (by simp) later with ⟨trailing, separators, equal⟩
        refine ⟨trailing, separators, ?_⟩
        rw [if_pos ending, List.flatMap_cons, List.append_assoc, equal,
          List.filterMap_cons_none (saidInput_whole closed ending here),
          saidWords_concat plain ((closed _).mpr ((whole_legal_iff ending).mpr here))]
        rfl
      · have notEnding := Bool.eq_false_iff.mpr ending
        rw [if_neg ending]
        by_cases ends : endsWithEndingPunct (normalizeMarks word.text) = true
        · rcases split_of_endsWithEndingPunct notEnding ends with
            ⟨body, mark, whole, nonempty, isMark⟩
          rcases (glued_legal_iff notEnding whole isMark).mpr here with ⟨terminator, notTerminator⟩
          rcases @ih [] (by simp) later with ⟨trailing, separators, equal⟩
          refine ⟨trailing, separators, ?_⟩
          have glued : saidInput { word with text := normalizeMarks word.text } =
              some (String.ofList body, word.startMs, word.endMs) :=
            saidInput_glued closed notEnding whole terminator
          rw [if_pos ends, List.flatMap_cons, List.append_assoc, equal,
            splitEnding_eq whole nonempty, List.filterMap_cons_some glued, List.append_cons,
            saidWords_concat _ ((closed _).mpr terminator)]
          · simp [said, AsrWord.new]
          · rw [List.forall_mem_append, List.forall_mem_singleton, notTerminator_iff closed]
            exact ⟨plain, notTerminator⟩
        · have noMark := Bool.eq_false_iff.mpr ends
          have plainNext := plain_concat closed plain
            (show isEndingPunct ({ word with text := normalizeMarks word.text } : AsrWord).text =
              false from notEnding)
          rcases ih plainNext later with ⟨trailing, separators, equal⟩
          refine ⟨trailing, separators, ?_⟩
          have kept : saidInput { word with text := normalizeMarks word.text } =
              some (said { word with text := normalizeMarks word.text }) :=
            saidInput_plain closed notEnding noMark
          rw [if_neg ends, equal, List.filterMap_cons_some kept, List.map_append,
            List.append_assoc]
          rfl

/-- Utterances are well ended and without loss exactly if every word ends legally. -/
theorem retokenize_wellEnded_iff (closed : ClosedTerminators) :
    ((∀ utterance ∈ retokenize speaker words, EndsWell utterance.words) ∧
        ∃ trailing : List AsrWord, (∀ word ∈ trailing, word.text ∈ morPunct) ∧
          (retokenize speaker words).flatMap (saidWords ·.words) ++ trailing.map said =
            (normalizedWords words).filterMap saidInput) ↔
      ∀ word ∈ words, EndsLegally (normalizeMarks word.text) := by
  have ends := @retokenizeFrom_endsWell_iff _ speaker [] words closed (by simp)
  constructor
  · exact fun good => ends.mp good.1
  · intro legal
    exact ⟨ends.mpr legal, retokenizeFrom_said closed (by simp) legal⟩

end Utterances

section Samples

/-- The whole set of terminators. -/
abbrev closedGrammar : ChatGrammar :=
  { Documented.plainGrammar with isChatTerminator := chatTerminators.contains }

theorem closedGrammar_closed : @ClosedTerminators closedGrammar :=
  fun _ => List.contains_iff_mem

theorem gluedMarks_wellEnded :
    (∀ utterance ∈ retokenize 0 (spoken ["hello", "there؟", "Tom", ",", "yes", ","]),
        @EndsWell closedGrammar utterance.words) ∧
      ∃ trailing : List AsrWord, (∀ word ∈ trailing, word.text ∈ morPunct) ∧
        (retokenize 0 (spoken ["hello", "there؟", "Tom", ",", "yes", ","])).flatMap
            (@saidWords closedGrammar ·.words) ++ trailing.map said =
          (normalizedWords (spoken ["hello", "there؟", "Tom", ",", "yes", ","])).filterMap
            (@saidInput closedGrammar) :=
  (@retokenize_wellEnded_iff closedGrammar 0
    (spoken ["hello", "there؟", "Tom", ",", "yes", ","]) closedGrammar_closed).mpr
    (by decide +kernel)

/-- Three dots are ending punctuation, but no terminator of CHAT. -/
theorem threeDots_notTerminator :
    ¬ ∀ utterance ∈ retokenize 0 (spoken ["hello", "..."]),
      @EndsWell closedGrammar utterance.words := by
  intro endsWell
  have cut : (⟨0, spoken ["hello"] ++ spoken ["..."], none⟩ : Utterance) ∈
      retokenize 0 (spoken ["hello", "..."]) := by
    decide +kernel
  have illegal : "..." ∉ chatTerminators := by decide
  rcases (@endsWell_concat closedGrammar _ _).mp (endsWell _ cut) with ⟨terminator, _⟩
  exact illegal (List.contains_iff_mem.mp terminator)

end Samples

end Batchalign.Asr
